import MethodWeave.Instruction.Label
/-!
What a patching session leaves behind besides its results: the labels it has handed out, the lines
it has logged and the notes that transpilers and patch modules have taken.
-/

namespace MethodWeave

/-- Labels, log lines and notes so far. -/
structure Journal where
  supply : LabelSupply := {}
  log : Log := {}
  notes : List String := []
deriving Inhabited

namespace Journal

/-- Add a log line. -/
def write (j : Journal) (level : Level) (line : Unit → String) : Journal :=
  { j with log := j.log.write level line }

/-- Take a note. -/
def note (j : Journal) (text : String) : Journal := { j with notes := j.notes ++ [text] }

@[simp] theorem supply_write (j : Journal) (level : Level) (line : Unit → String) :
    (j.write level line).supply = j.supply := rfl

@[simp] theorem notes_write (j : Journal) (level : Level) (line : Unit → String) :
    (j.write level line).notes = j.notes := rfl

end Journal

end MethodWeave
