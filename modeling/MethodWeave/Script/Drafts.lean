import MethodWeave.Script.Scope
/-!
Instructions that are drafted one by one, each under a name.

All drafts share one scope, so a label that is named in two of them is the same label.  A draft that
could not be built leaves the one that had its name before.
-/

namespace MethodWeave.Script

/-- Drafted instructions by name, the newest first. -/
structure Drafts where
  scope : Scope := {}
  instructions : List (String × Instruction) := []
deriving Inhabited

namespace Drafts

/-- The instruction of a name. -/
def find? (d : Drafts) (name : String) : Option Instruction := d.instructions.lookup name

/-- Let a name stand for an instruction, if there is one. -/
def keep (name : String) (i? : Option Instruction) (d : Drafts) : Drafts :=
  match i? with
  | some i => { d with instructions := (name, i) :: d.instructions }
  | none => d

@[simp] theorem find?_keep_some (d : Drafts) (name : String) (i : Instruction) :
    (d.keep name (some i)).find? name = some i := by
  simp [keep, find?]

@[simp] theorem keep_none (d : Drafts) (name : String) : d.keep name none = d := rfl

/-- Build with the names of the scope. -/
def inScope {α : Type} (build : StateM Scope α) : StateM Drafts α := fun d =>
  let (a, scope) := build d.scope
  (a, { d with scope := scope })

/-- The label of a name. -/
def label (name : String) : StateM Drafts Label := inScope (Scope.label name)

/-- Let a name stand for a new label that is fixed to a native one. -/
def nameFixed (name : String) (target : NativeLabel) : StateM Drafts Label :=
  inScope (Scope.nameFixed name target)

/-- A draft with a value in its operand. -/
def store (i : Instruction) (v : Value) : StateM Drafts (Except InstructionError Instruction) :=
  inScope (Script.store i v).run

end Drafts

end MethodWeave.Script
