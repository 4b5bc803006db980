import MethodWeave.Code.Reader
import MethodWeave.Instruction.Value
/-!
Rewritable instructions: an opcode, an operand of the kind that the opcode asks for, the labels that
mark the instruction, and the region markers in front of it.

Instructions are made by `ofOpcode` and changed by `setValue`, `copyWith`, `withLabel` and
`withMarker`; none of these can give an instruction an operand of another kind than its opcode's.
-/

namespace MethodWeave

/-- Errors of building, decoding and lowering instructions. -/
inductive InstructionError where
  | read (cause : ReadError)
  | unknownOpcode (opcode : Opcode)
  | unresolvedToken (offset : Nat) (token : Token)
  | unknownLocal (offset : Nat) (slot : UInt16)
  | invalidBranchTarget (target : Int)
  | invalidRegion (position : Nat)
  /-- The operand does not take a value of the named type. -/
  | noMatchingOperand (opcode : Opcode) (typeName : String)
  | unsetOperand (opcode : Opcode)
  | operandMismatch (opcode source : Opcode)
deriving DecidableEq, Repr

def InstructionError.message : InstructionError → String
  | .read cause => cause.message
  | .unknownOpcode opcode => "unknown opcode 0x" ++ Text.hex 4 opcode.code.toNat
  | .unresolvedToken offset token =>
    s!"offset {offset}: token {token.text} does not resolve to a usable operand"
  | .unknownLocal offset slot => s!"offset {offset}: local {slot.toNat} is not declared"
  | .invalidBranchTarget target => s!"branch target {target} is not an instruction boundary"
  | .invalidRegion position =>
    s!"exception region boundary {position} is not an instruction boundary"
  | .noMatchingOperand opcode typeName =>
    s!"no operand of `{opcode.mnemonic}` accepts a value of type {typeName}"
  | .unsetOperand opcode => s!"operand of `{opcode.mnemonic}` was never set"
  | .operandMismatch opcode source =>
    s!"`{opcode.mnemonic}` cannot take the operand of `{source.mnemonic}`"

/-- The word for the kind of error; an error of reading is named behind its family. -/
def InstructionError.kind : InstructionError → String
  | .read cause => "Decode." ++ cause.kind
  | .unknownOpcode _ => "UnknownOpcode"
  | .unresolvedToken _ _ => "UnresolvedToken"
  | .unknownLocal _ _ => "UnknownLocal"
  | .invalidBranchTarget _ => "InvalidBranchTarget"
  | .invalidRegion _ => "InvalidRegion"
  | .noMatchingOperand _ _ => "NoMatchingOperand"
  | .unsetOperand _ => "UnsetOperand"
  | .operandMismatch _ _ => "OperandMismatch"

/-- One instruction of a rewritable listing. -/
structure Instruction where
  opcode : Opcode
  operand : Operand
  /-- The labels that mark this instruction, by increasing number. -/
  labels : List Label := []
  /-- Regions that begin and end immediately before this instruction, in order. -/
  markers : List Marker := []
  /-- Where in the code of a body the instruction was read. -/
  offset? : Option Nat := none
deriving Repr, Inhabited

namespace Instruction

/-- The instruction of an opcode, with nothing in its operand yet. -/
def ofOpcode (opcode : Opcode) : Except InstructionError Instruction :=
  match opcode.info? with
  | some info => .ok { opcode := opcode, operand := .emptyFor info }
  | none => .error (.unknownOpcode opcode)

/-- Store a value in the operand. -/
def setValue (i : Instruction) (v : InlineValue Label) : Except InstructionError Instruction :=
  match i.operand.store v.payload with
  | some operand => .ok { i with operand := operand }
  | none => .error (.noMatchingOperand i.opcode v.typeName)

/-- Mark the instruction with a label. -/
def withLabel (i : Instruction) (l : Label) : Instruction :=
  { i with labels := l.insertInto i.labels }

/-- Put a further marker behind those in front of the instruction. -/
def withMarker (i : Instruction) (m : Marker) : Instruction :=
  { i with markers := i.markers ++ [m] }

/-- The instruction under another opcode that takes the same kind of operand.  Labels, markers and
offset are kept. -/
def copyWith (i : Instruction) (opcode : Opcode) : Except InstructionError Instruction := do
  let copy ← ofOpcode opcode
  match i.operand.copyInto copy.operand with
  | some operand => .ok { i with opcode := opcode, operand := operand }
  | none => .error (.operandMismatch opcode i.opcode)

/-! ### Measures -/

/-- Slots that a call adds to the static effect: the result, less the parameters, less the receiver
of an instance method; a constructor brings its own receiver. -/
def calleeChange (opcode : Opcode) (m : MethodRef) : Int :=
  (if m.returnsValue then 1 else 0) - (m.parameters.length : Int)
    - (if !m.isStatic && opcode != Opcode.newobj then 1 else 0)

/-- The net effect on the evaluation stack. -/
def stackChange (i : Instruction) : Int :=
  let base := (i.opcode.info?.map Opcode.Info.stackChange).getD 0
  if i.opcode = Opcode.call ∨ i.opcode = Opcode.callvirt ∨ i.opcode = Opcode.newobj then
    match i.operand.method? with
    | some m => base + calleeChange i.opcode m
    | none => base
  else base

/-- The most bytes that the instruction can take in code. -/
def maxBytes (i : Instruction) : Nat := 2 + i.operand.maxBytes

/-! ### Text -/

/-- The labels in front of an instruction. -/
def labelText : List Label → String
  | [] => ""
  | labels => ", ".intercalate (labels.map Label.text) ++ ": "

/-- An instruction as a line of a listing. -/
def text (i : Instruction) : String :=
  labelText i.labels ++ i.opcode.mnemonic ++
    match i.operand with
    | .none => ""
    | operand => " " ++ operand.text

end Instruction

end MethodWeave
