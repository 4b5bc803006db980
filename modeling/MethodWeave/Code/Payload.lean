import MethodWeave.Binary.Word
import MethodWeave.Body
/-!
What an instruction carries besides its opcode: the payload of its operand, and the markers that
open and close exception regions in front of it.

A payload is the same whether its jump targets are code positions, labels of a rewritable listing
or labels of a native stream, so the kind of target is a parameter.
-/

namespace MethodWeave

/-- A local slot with its declared type. -/
structure Local where
  index : UInt16
  type : TypeRef
deriving BEq, Repr, Inhabited

/-- Locals are printed by slot and type. -/
def Local.text (l : Local) : String :=
  "V_" ++ toString l.index.toNat ++ " (" ++ l.type.text ++ ")"

/-- The value of an operand, with jump targets of type `τ`. -/
inductive Payload (τ : Type) where
  | none
  | label (target : τ)
  | labels (targets : List τ)
  | int32 (value : Int32)
  | int64 (value : Int64)
  | float32 (value : Binary32)
  | float64 (value : Binary64)
  | string (value : String)
  | member (value : Member)
  | signature (value : Signature)
  | local (slot : Local)
  | argument (index : UInt16)
deriving BEq, Repr, Inhabited

namespace Payload

variable {τ υ : Type}

/-- Replace every jump target, in order, by an action. -/
def mapTargetsM {m : Type → Type} [Monad m] (f : τ → m υ) : Payload τ → m (Payload υ)
  | .none => pure .none
  | .label t => return .label (← f t)
  | .labels ts => return .labels (← ts.mapM f)
  | .int32 v => pure (.int32 v)
  | .int64 v => pure (.int64 v)
  | .float32 v => pure (.float32 v)
  | .float64 v => pure (.float64 v)
  | .string v => pure (.string v)
  | .member v => pure (.member v)
  | .signature v => pure (.signature v)
  | .local l => pure (.local l)
  | .argument i => pure (.argument i)

/-- The jump targets, in order. -/
def targets : Payload τ → List τ
  | .label t => [t]
  | .labels ts => ts
  | _ => []

end Payload

/-- A boundary of exception regions, placed before an instruction. -/
inductive Marker where
  | beginTry
  /-- Begins a handler for exceptions of one type, or of all. -/
  | beginCatch (type? : Option TypeRef)
  | beginFinally
  | beginFault
  | endTry
deriving BEq, Repr, Inhabited

/-- What the handler that a marker begins does. -/
def Marker.handler? : Marker → Option ClauseKind
  | .beginCatch t => some (.catching t)
  | .beginFinally => some .finally
  | .beginFault => some .fault
  | .beginTry | .endTry => none

/-- The marker that begins a handler. -/
def ClauseKind.marker : ClauseKind → Marker
  | .catching t => .beginCatch t
  | .finally => .beginFinally
  | .fault => .beginFault

@[simp] theorem ClauseKind.handler?_marker (k : ClauseKind) : k.marker.handler? = some k := by
  cases k <;> rfl

end MethodWeave
