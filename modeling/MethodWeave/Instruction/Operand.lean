import MethodWeave.Decimal.Literal
import MethodWeave.Instruction.Label
import MethodWeave.Native.Encode
import MethodWeave.Text.Quoted
/-!
Operands of rewritable instructions.

The opcode of an instruction settles which kind of operand it has, once and for all.  A reference
starts out unset and a number at zero.  `store` is the one way to fill an operand: it takes a
payload of the operand's own kind and refuses any other, so the kind never changes.
-/

namespace MethodWeave

/-- Which members a member operand takes. -/
inductive MemberKind where
  | method
  | field
  | type
  /-- A member of any kind. -/
  | any
deriving DecidableEq, Repr

def MemberKind.accepts : MemberKind → Member → Bool
  | .any, _ => true
  | .method, .method _ => true
  | .field, .field _ => true
  | .type, .type _ => true
  | _, _ => false

/-- The operand of a rewritable instruction. -/
inductive Operand where
  | none
  | branchTarget (target? : Option Label)
  | int32 (value : Int32)
  | int64 (value : Int64)
  | float32 (value : Binary32)
  | float64 (value : Binary64)
  | string (value? : Option String)
  | member (kind : MemberKind) (value? : Option Member)
  | signature (value? : Option Signature)
  | local (slot? : Option Local)
  | argument (index : UInt16)
  | switch (targets : List Label)
deriving BEq, Repr, Inhabited

namespace Operand

/-- The operand that an opcode's row asks for, with nothing in it yet. -/
def emptyFor (i : Opcode.Info) : Operand :=
  match i.operand with
  | .none => .none
  | .shortBranch | .branch => .branchTarget Option.none
  | .shortInt | .int => .int32 0
  | .int8 => .int64 0
  | .shortReal => .float32 ⟨0⟩
  | .real => .float64 ⟨0⟩
  | .string => .string Option.none
  | .field => .member .field Option.none
  | .method => .member .method Option.none
  | .type => .member .type Option.none
  | .member => .member .any Option.none
  | .signature => .signature Option.none
  | .shortVar | .var => if i.has .local then .local Option.none else .argument 0
  | .switch => .switch []

/-- The name of the operand's kind. -/
def kind : Operand → String
  | .none => "none"
  | .branchTarget _ => "branch target"
  | .int32 _ => "int32"
  | .int64 _ => "int64"
  | .float32 _ => "float32"
  | .float64 _ => "float64"
  | .string _ => "string"
  | .member _ _ => "member"
  | .signature _ => "signature"
  | .local _ => "local"
  | .argument _ => "argument"
  | .switch _ => "switch"

/-- The most bytes that the operand can take in code. -/
def maxBytes : Operand → Nat
  | .none => 0
  | .local _ | .argument _ => 2
  | .branchTarget _ | .int32 _ | .float32 _ | .string _ | .member _ _ | .signature _ => 4
  | .int64 _ | .float64 _ => 8
  | .switch targets => 4 + 4 * targets.length

/-! ### Payloads in and out -/

/-- Is the payload of this operand's kind? -/
def accepts {τ : Type} : Operand → Payload τ → Bool
  | .branchTarget _, .label _ => true
  | .int32 _, .int32 _ => true
  | .int64 _, .int64 _ => true
  | .float32 _, .float32 _ => true
  | .float64 _, .float64 _ => true
  | .string _, .string _ => true
  | .member kind _, .member m => kind.accepts m
  | .signature _, .signature _ => true
  | .local _, .local _ => true
  | .argument _, .argument _ => true
  | .switch _, .labels _ => true
  | _, _ => false

/-- The operand with a payload in it; `none` if the payload is of another kind. -/
def store (operand : Operand) (payload : Payload Label) : Option Operand :=
  match operand, payload with
  | .branchTarget _, .label l => some (.branchTarget (some l))
  | .int32 _, .int32 v => some (.int32 v)
  | .int64 _, .int64 v => some (.int64 v)
  | .float32 _, .float32 v => some (.float32 v)
  | .float64 _, .float64 v => some (.float64 v)
  | .string _, .string s => some (.string (some s))
  | .member kind _, .member m => if kind.accepts m then some (.member kind (some m)) else Option.none
  | .signature _, .signature s => some (.signature (some s))
  | .local _, .local l => some (.local (some l))
  | .argument _, .argument i => some (.argument i)
  | .switch _, .labels ls => some (.switch ls)
  | _, _ => Option.none

/-- A payload is stored exactly if it is of the operand's kind. -/
theorem isSome_store (operand : Operand) (payload : Payload Label) :
    (operand.store payload).isSome = operand.accepts payload := by
  cases operand <;> cases payload <;> simp [store, accepts]
  split <;> simp_all

/-- What the operand holds; `none` while it is unset. -/
def payload? : Operand → Option (Payload Label)
  | .none => some .none
  | .branchTarget t => t.map .label
  | .int32 v => some (.int32 v)
  | .int64 v => some (.int64 v)
  | .float32 v => some (.float32 v)
  | .float64 v => some (.float64 v)
  | .string s => s.map .string
  | .member _ m => m.map .member
  | .signature s => s.map .signature
  | .local l => l.map .local
  | .argument i => some (.argument i)
  | .switch targets => some (.labels targets)

/-- What has been stored is what the operand holds. -/
theorem payload?_of_store {operand stored : Operand} {payload : Payload Label}
    (h : operand.store payload = some stored) : stored.payload? = some payload := by
  cases operand <;> cases payload <;> simp only [store, Option.some.injEq, reduceCtorEq] at h
  case member.member =>
    split at h
    · cases h; rfl
    · cases h
  all_goals subst h; rfl

/-- Copy the contents of one operand into another; `none` if `target` is of another kind or does
not take the member that `source` holds.  From an unset member operand nothing is copied. -/
def copyInto (source target : Operand) : Option Operand :=
  match source, target with
  | .member _ (some m), .member kind _ =>
    if kind.accepts m then some (.member kind (some m)) else Option.none
  | .member _ Option.none, .member kind held => some (.member kind held)
  | .none, .none | .branchTarget _, .branchTarget _ | .int32 _, .int32 _ | .int64 _, .int64 _
  | .float32 _, .float32 _ | .float64 _, .float64 _ | .string _, .string _
  | .signature _, .signature _ | .local _, .local _ | .argument _, .argument _
  | .switch _, .switch _ => some source
  | _, _ => Option.none

/-! ### Looking inside -/

def label? : Operand → Option Label
  | .branchTarget t => t
  | _ => Option.none

def int32? : Operand → Option Int32
  | .int32 v => some v
  | _ => Option.none

def member? : Operand → Option Member
  | .member _ m => m
  | _ => Option.none

def method? (o : Operand) : Option MethodRef := o.member?.bind Member.method?

def field? (o : Operand) : Option FieldRef := o.member?.bind Member.field?

def type? (o : Operand) : Option TypeRef := o.member?.bind Member.type?

def local? : Operand → Option Local
  | .local l => l
  | _ => Option.none

/-! ### Text -/

/-- Jump targets between parentheses. -/
def switchText (targets : List Label) : String :=
  "(" ++ ", ".intercalate (targets.map Label.text) ++ ")"

/-- An operand as it stands in a listing. -/
def text : Operand → String
  | .none => ""
  | .branchTarget (some l) => l.text
  | .int32 v => toString v.toInt
  | .int64 v => toString v.toInt
  | .float32 v => Decimal.literal .single v.datum
  | .float64 v => Decimal.literal .double v.datum
  | .string (some s) => Text.quoted s
  | .member _ (some m) => m.text
  | .signature (some s) => s.text
  | .local (some l) => l.text
  | .argument i => "A_" ++ toString i.toNat
  | .switch targets => switchText targets
  | _ => "<unset>"

end Operand

end MethodWeave
