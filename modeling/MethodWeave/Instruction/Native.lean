import MethodWeave.Instruction.Basic
/-!
Between rewritable instructions and native ones.

Lowering resolves labels in one pass over the instructions: of each, first those of the operand,
then those that mark it, by increasing number.  The labels of the native instruction stand in
increasing order.  Lifting makes fixed labels in the same order; a payload that the operand does
not take leaves it as it was.
-/

namespace MethodWeave

namespace NativeLabel

/-- Put a label into its place in an increasing list. -/
def insertInto (l : NativeLabel) : List NativeLabel → List NativeLabel
  | [] => [l]
  | k :: rest => if l.number ≤ k.number then l :: k :: rest else k :: insertInto l rest

/-- The labels of a list in increasing order, repetitions included. -/
def sort (ls : List NativeLabel) : List NativeLabel := ls.foldr insertInto []

end NativeLabel

namespace Instruction

/-- The native form of an instruction; the pass goes on even if the operand is unset. -/
def lower (i : Instruction) : ExceptT InstructionError (StateM Lowering) NativeInstruction := do
  match i.operand.payload? with
  | none => throw (.unsetOperand i.opcode)
  | some payload =>
    let operand ← payload.mapTargetsM (m := StateM Lowering) Lowering.resolve
    let labels ← i.labels.mapM (m := StateM Lowering) Lowering.resolve
    return { opcode := i.opcode, operand := operand
             labels := NativeLabel.sort labels, markers := i.markers }

/-- The native form of a list of instructions. -/
def lowerAll (instructions : List Instruction) :
    ExceptT InstructionError (StateM Lowering) (List NativeInstruction) :=
  instructions.mapM lower

/-- The native form of a list of instructions in a pass of its own, and the generator that goes on
from it. -/
def lowerWith (g : Generator) (instructions : List Instruction) :
    Except InstructionError (List NativeInstruction) × Generator :=
  let (stream, pass) := (lowerAll instructions).run { generator := g }
  (stream, pass.generator)

/-- Put a native payload into an operand; one of another kind leaves it alone. -/
def loadNative (operand : Operand) (payload : Payload NativeLabel) : StateM Lifting Operand := do
  if operand.accepts payload then
    let payload ← payload.mapTargetsM (m := StateM Lifting) Lifting.label
    return (operand.store payload).getD operand
  else return operand

/-- The rewritable form of a native instruction. -/
def lift (native : NativeInstruction) :
    ExceptT InstructionError (StateM Lifting) Instruction := do
  let i ← ofOpcode native.opcode
  let operand ← loadNative i.operand native.operand
  let labels ← native.labels.mapM (m := StateM Lifting) Lifting.label
  return { i with operand := operand, labels := Label.setOf labels, markers := native.markers }

/-- The rewritable form of a native stream, in one lifting pass. -/
def liftAll (stream : List NativeInstruction) :
    ExceptT InstructionError (StateM Lifting) (List Instruction) :=
  stream.mapM lift

/-- Lift a stream with labels from `supply`, and give what is left of the supply. -/
def ofNative (stream : List NativeInstruction) (supply : LabelSupply) :
    Except InstructionError (List Instruction) × LabelSupply :=
  let (result, pass) := (liftAll stream).run { supply := supply }
  (result, pass.supply)

end Instruction

end MethodWeave
