import MethodWeave.Instruction.Operand
/-!
Typed values that an author of instructions stores into operands.  A value is a payload together
with the name of its type, which is what a message about a misplaced value shows.  As in a payload,
the kind of jump target is a parameter.
-/

namespace MethodWeave

/-- A value to be stored in an operand. -/
structure InlineValue (τ : Type) where
  typeName : String
  payload : Payload τ
deriving Repr, Inhabited

namespace InlineValue

variable {τ υ : Type}

def int32 (v : Int32) : InlineValue τ := ⟨"i32", .int32 v⟩

/-- A small integer is widened; it fits where a 32-bit one does. -/
def int8 (v : Int8) : InlineValue τ := ⟨"i8", .int32 v.toInt32⟩

def int64 (v : Int64) : InlineValue τ := ⟨"i64", .int64 v⟩

def float32 (v : Binary32) : InlineValue τ := ⟨"f32", .float32 v⟩

def float64 (v : Binary64) : InlineValue τ := ⟨"f64", .float64 v⟩

/-- A text that is borrowed and copied. -/
def slice (s : String) : InlineValue τ := ⟨"&str", .string s⟩

/-- A text that is handed over. -/
def string (s : String) : InlineValue τ := ⟨"String", .string s⟩

def label (l : τ) : InlineValue τ := ⟨"Label", .label l⟩

/-- Jump targets as a plain list. -/
def labels (ls : List τ) : InlineValue τ := ⟨"Vec<Label>", .labels ls⟩

/-- Jump targets as a jump table. -/
def switchTable (ls : List τ) : InlineValue τ := ⟨"SwitchTable", .labels ls⟩

def member (m : Member) : InlineValue τ := ⟨"MemberRef", .member m⟩

def method (m : MethodRef) : InlineValue τ := ⟨"MethodRef", .member (.method m)⟩

def field (f : FieldRef) : InlineValue τ := ⟨"FieldRef", .member (.field f)⟩

def type (t : TypeRef) : InlineValue τ := ⟨"TypeRef", .member (.type t)⟩

def signature (s : Signature) : InlineValue τ := ⟨"Signature", .signature s⟩

def «local» (l : Local) : InlineValue τ := ⟨"Local", .local l⟩

def argument (index : UInt16) : InlineValue τ := ⟨"Argument", .argument index⟩

/-- Replace every jump target, in order, by an action. -/
def mapTargetsM {m : Type → Type} [Monad m] (f : τ → m υ) (v : InlineValue τ) :
    m (InlineValue υ) :=
  return ⟨v.typeName, ← v.payload.mapTargetsM f⟩

end InlineValue

end MethodWeave
