import MethodWeave.Opcode.Table
/-!
What opcodes do when they are executed.

Many opcodes do the same thing in different encodings.  `Operation.ofOpcode?` names the operation of
each opcode that can be executed; the short form of a branch has the operation of its long form.
-/

namespace MethodWeave

/-- Operations on two numbers of one type. -/
inductive BinaryOp where
  | add | sub | mul | div | divUnsigned | rem | remUnsigned | and | or | xor
deriving DecidableEq, Repr

inductive ShiftOp where
  | left | right | rightUnsigned
deriving DecidableEq, Repr

/-- Types that numbers are converted to. -/
inductive NumericType where
  | int32 | int64 | single | double
deriving DecidableEq, Repr

/-- The order relations that branches and comparisons test. -/
inductive Relation where
  | less | lessEqual | greater | greaterEqual
deriving DecidableEq, Repr

/-- One operation of the machine.  A slot is given by the opcode itself or by the operand. -/
inductive Operation where
  | nothing
  | loadArgument (slot? : Option UInt16)
  | storeArgument
  | loadLocal (slot? : Option UInt16)
  | storeLocal (slot? : Option UInt16)
  | loadNull
  | loadInt (value : Int32)
  /-- Push the number in the operand. -/
  | loadNumber
  | loadString
  | duplicate
  | discard
  | binary (op : BinaryOp)
  | shift (op : ShiftOp)
  | negate
  | complement
  | convert (type : NumericType)
  | testEqual
  | test (relation : Relation) (isUnsigned : Bool)
  | branch
  | branchIf (truth : Bool)
  | branchEqual (equal : Bool)
  | branchTest (relation : Relation) (isUnsigned : Bool)
  | switch
  | call
  | ret
  | throw
deriving DecidableEq, Repr

namespace Operation

/-- The operation of a code that is not a short branch. -/
def ofCode? (code : UInt16) : Option Operation :=
  match code.toNat with
  | 0x00 | 0x01 => some .nothing
  | 0x02 => some (.loadArgument (some 0))
  | 0x03 => some (.loadArgument (some 1))
  | 0x04 => some (.loadArgument (some 2))
  | 0x05 => some (.loadArgument (some 3))
  | 0x06 => some (.loadLocal (some 0))
  | 0x07 => some (.loadLocal (some 1))
  | 0x08 => some (.loadLocal (some 2))
  | 0x09 => some (.loadLocal (some 3))
  | 0x0a => some (.storeLocal (some 0))
  | 0x0b => some (.storeLocal (some 1))
  | 0x0c => some (.storeLocal (some 2))
  | 0x0d => some (.storeLocal (some 3))
  | 0x0e | 0xfe09 => some (.loadArgument none)
  | 0x10 | 0xfe0b => some .storeArgument
  | 0x11 | 0xfe0c => some (.loadLocal none)
  | 0x13 | 0xfe0e => some (.storeLocal none)
  | 0x14 => some .loadNull
  | 0x15 => some (.loadInt (-1))
  | 0x16 => some (.loadInt 0)
  | 0x17 => some (.loadInt 1)
  | 0x18 => some (.loadInt 2)
  | 0x19 => some (.loadInt 3)
  | 0x1a => some (.loadInt 4)
  | 0x1b => some (.loadInt 5)
  | 0x1c => some (.loadInt 6)
  | 0x1d => some (.loadInt 7)
  | 0x1e => some (.loadInt 8)
  | 0x1f | 0x20 | 0x21 | 0x22 | 0x23 => some .loadNumber
  | 0x25 => some .duplicate
  | 0x26 => some .discard
  | 0x28 | 0x6f => some .call
  | 0x2a => some .ret
  | 0x38 | 0xdd => some .branch
  | 0x39 => some (.branchIf false)
  | 0x3a => some (.branchIf true)
  | 0x3b => some (.branchEqual true)
  | 0x3c => some (.branchTest .greaterEqual false)
  | 0x3d => some (.branchTest .greater false)
  | 0x3e => some (.branchTest .lessEqual false)
  | 0x3f => some (.branchTest .less false)
  | 0x40 => some (.branchEqual false)
  | 0x41 => some (.branchTest .greaterEqual true)
  | 0x42 => some (.branchTest .greater true)
  | 0x43 => some (.branchTest .lessEqual true)
  | 0x44 => some (.branchTest .less true)
  | 0x45 => some .switch
  | 0x58 => some (.binary .add)
  | 0x59 => some (.binary .sub)
  | 0x5a => some (.binary .mul)
  | 0x5b => some (.binary .div)
  | 0x5c => some (.binary .divUnsigned)
  | 0x5d => some (.binary .rem)
  | 0x5e => some (.binary .remUnsigned)
  | 0x5f => some (.binary .and)
  | 0x60 => some (.binary .or)
  | 0x61 => some (.binary .xor)
  | 0x62 => some (.shift .left)
  | 0x63 => some (.shift .right)
  | 0x64 => some (.shift .rightUnsigned)
  | 0x65 => some .negate
  | 0x66 => some .complement
  | 0x69 => some (.convert .int32)
  | 0x6a => some (.convert .int64)
  | 0x6b => some (.convert .single)
  | 0x6c => some (.convert .double)
  | 0x72 => some .loadString
  | 0x7a => some .throw
  | 0xfe01 => some .testEqual
  | 0xfe02 => some (.test .greater false)
  | 0xfe03 => some (.test .greater true)
  | 0xfe04 => some (.test .less false)
  | 0xfe05 => some (.test .less true)
  | _ => none

/-- The operation of an opcode; `none` if the machine does not execute it. -/
def ofOpcode? (op : Opcode) : Option Operation := ofCode? op.widened.code

end Operation

end MethodWeave
