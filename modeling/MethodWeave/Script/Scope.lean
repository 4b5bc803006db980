import MethodWeave.Instruction.Native
/-!
Instructions written down with names: a jump goes to a named label and a slot is a named local.

A scope gives names their meaning.  A label is made at the first mention of its name; locals have
to be declared before they are named.
-/

namespace MethodWeave.Script

/-- What names stand for. -/
structure Scope where
  supply : LabelSupply := {}
  labels : List (String × Label) := []
  locals : List (String × Local) := []
deriving Inhabited

namespace Scope

/-- The label of a name, made at its first mention. -/
def label (name : String) (s : Scope) : Label × Scope :=
  match s.labels.lookup name with
  | some l => (l, s)
  | none =>
    let (l, supply) := s.supply.free
    (l, { s with supply := supply, labels := (name, l) :: s.labels })

/-- Let a name stand for a label from now on. -/
def nameLabel (name : String) (l : Label) (s : Scope) : Scope :=
  { s with labels := (name, l) :: s.labels }

/-- Let a name stand for a new label that is fixed to a native one. -/
def nameFixed (name : String) (target : NativeLabel) (s : Scope) : Label × Scope :=
  let (l, supply) := s.supply.fixed target
  (l, { s with supply := supply }.nameLabel name l)

/-- Let a name stand for a local from now on. -/
def nameLocal (name : String) (slot : Local) (s : Scope) : Scope :=
  { s with locals := (name, slot) :: s.locals }

end Scope

/-- A value to be stored in an operand, with labels and locals by name. -/
inductive Value where
  | typed (value : InlineValue String)
  | local (name : String)
deriving Repr, Inhabited

/-- The value that is meant; `none` if it names a local that is not declared. -/
def Value.resolve : Value → StateM Scope (Option (InlineValue Label))
  | .typed v => return some (← v.mapTargetsM (m := StateM Scope) Scope.label)
  | .local name => return ((← get).locals.lookup name).map .local

/-- An instruction with names. -/
structure Line where
  opcode : Opcode
  value? : Option Value := none
  labels : List String := []
  markers : List Marker := []
deriving Repr, Inhabited

/-- Store a named value in an instruction.  A local that is not declared leaves the operand unset.
-/
def store (i : Instruction) (v : Value) : ExceptT InstructionError (StateM Scope) Instruction := do
  match ← v.resolve with
  | some v => i.setValue v
  | none => return i

/-- An instruction with the value of a line, if the line has one. -/
def storeIfAny (i : Instruction) :
    Option Value → ExceptT InstructionError (StateM Scope) Instruction
  | some v => store i v
  | none => return i

/-- The instruction that a line stands for: first its value is stored, then its labels are put on
it, then its markers. -/
def Line.instruction (line : Line) : ExceptT InstructionError (StateM Scope) Instruction := do
  let i ← storeIfAny (← Instruction.ofOpcode line.opcode) line.value?
  let labels ← line.labels.mapM (m := StateM Scope) Scope.label
  return line.markers.foldl Instruction.withMarker (labels.foldl Instruction.withLabel i)

/-- The instructions of several lines. -/
def instructions (lines : List Line) : ExceptT InstructionError (StateM Scope) (List Instruction) :=
  lines.mapM Line.instruction

end MethodWeave.Script
