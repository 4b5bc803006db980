import MethodWeave.Bytes
/-!
Operation codes of the instruction set, and what the table says of each: its mnemonic, the class
of its inline operand, its static effect on the evaluation stack and its control-flow flags.

An opcode is any 16-bit code.  One-byte opcodes are stored as they are and two-byte opcodes with
their prefix byte in the high half, so the code alone tells how many bytes it takes.  Only the
codes of the table are instructions; see `Opcode.info?`.
-/

namespace MethodWeave

/-- A code, whether or not it is in the table. -/
structure Opcode where
  code : UInt16
deriving DecidableEq, Repr, Inhabited

/-- The inline operand that follows an opcode in the code. -/
inductive OperandClass where
  | none
  /-- A signed 8-bit displacement. -/
  | shortBranch
  /-- A signed 32-bit displacement. -/
  | branch
  | shortInt
  | int
  | int8
  | shortReal
  | real
  /-- The token of a user string. -/
  | string
  | field
  | method
  | type
  /-- The token of any member. -/
  | member
  /-- The token of a stand-alone signature. -/
  | signature
  /-- An 8-bit index of a local or an argument. -/
  | shortVar
  /-- A 16-bit index of a local or an argument. -/
  | var
  /-- A 32-bit count, and so many 32-bit displacements. -/
  | switch
deriving DecidableEq, Repr

namespace OperandClass

/-- How many bytes the operand takes; a jump table has no fixed size. -/
def fixedSize? : OperandClass → Option Nat
  | .none => some 0
  | .shortBranch | .shortInt | .shortVar => some 1
  | .var => some 2
  | .branch | .int | .shortReal | .string | .field | .method | .type | .member | .signature =>
    some 4
  | .int8 | .real => some 8
  | .switch => Option.none

def isBranch : OperandClass → Bool
  | .shortBranch | .branch => true
  | _ => false

/-- The name under which the class stands in descriptions of the instruction set. -/
def name : OperandClass → String
  | .none => "None"
  | .shortBranch => "ShortBrTarget"
  | .branch => "BrTarget"
  | .shortInt => "ShortInlineI"
  | .int => "InlineI"
  | .int8 => "InlineI8"
  | .shortReal => "ShortInlineR"
  | .real => "InlineR"
  | .string => "String"
  | .field => "Field"
  | .method => "Method"
  | .type => "Type"
  | .member => "Tok"
  | .signature => "Sig"
  | .shortVar => "ShortVar"
  | .var => "Var"
  | .switch => "Switch"

end OperandClass

namespace Opcode

/-- Control-flow and addressing properties. -/
inductive Flag where
  | jump | conditional | return | throw | call | «local» | argument | address | store | modifier
deriving DecidableEq, Repr

namespace Flag

/-- The flags from the lowest bit up. -/
def all : List Flag :=
  [.jump, .conditional, .return, .throw, .call, .local, .argument, .address, .store, .modifier]

/-- The value of a flag in a set of flags written as a number. -/
def bit : Flag → Nat
  | .jump => 1
  | .conditional => 2
  | .return => 4
  | .throw => 8
  | .call => 16
  | .local => 32
  | .argument => 64
  | .address => 128
  | .store => 256
  | .modifier => 512

/-- The name under which the flag stands in descriptions of the instruction set. -/
def name : Flag → String
  | .jump => "JUMP"
  | .conditional => "CONDITIONAL"
  | .return => "RETURN"
  | .throw => "THROW"
  | .call => "CALL"
  | .local => "LOCAL"
  | .argument => "ARGUMENT"
  | .address => "ADDRESS"
  | .store => "STORE"
  | .modifier => "PREFIX"

end Flag

/-- What the table says of one opcode. -/
structure Info where
  opcode : Opcode
  mnemonic : String
  operand : OperandClass
  /-- Stack slots consumed; `none` when it depends on the member referred to. -/
  pop : Option Nat
  /-- Stack slots produced; `none` when it depends on the member referred to. -/
  push : Option Nat
  /-- The flags that are set, lowest bit first. -/
  flags : List Flag
deriving DecidableEq, Repr

/-- Slots produced less slots consumed, a dependent count taken as zero. -/
def Info.stackChange (i : Info) : Int := (i.push.getD 0 : Int) - (i.pop.getD 0 : Int)

/-- Is the flag set? -/
def Info.has (i : Info) (flag : Flag) : Bool := flag ∈ i.flags

/-- The set of flags as a number. -/
def flagBits (flags : List Flag) : Nat := flags.foldl (fun bits flag => bits + flag.bit) 0

/-- Bytes of the opcode itself. -/
def size (op : Opcode) : Nat := if op.code.toNat > 0xff then 2 else 1

/-- An opcode is one byte, or two. -/
theorem size_bounds (op : Opcode) : 1 ≤ op.size ∧ op.size ≤ 2 := by
  unfold size
  split <;> decide

/-- The bytes of the opcode itself. -/
def bytes (op : Opcode) : List UInt8 :=
  if op.code.toNat > 0xff then [0xfe, op.code.toUInt8] else [op.code.toUInt8]

@[simp] theorem length_bytes (op : Opcode) : op.bytes.length = op.size := by
  unfold bytes size
  split <;> rfl

/-! ### Opcodes that the library writes itself or treats apart -/

def pop : Opcode := ⟨0x26⟩
def call : Opcode := ⟨0x28⟩
def callvirt : Opcode := ⟨0x6f⟩
def newobj : Opcode := ⟨0x73⟩
def ret : Opcode := ⟨0x2a⟩
def br : Opcode := ⟨0x38⟩
def leave : Opcode := ⟨0xdd⟩
def leaveShort : Opcode := ⟨0xde⟩
def ldcI4 : Opcode := ⟨0x20⟩
def ldarg : Opcode := ⟨0xfe09⟩
def ldloc : Opcode := ⟨0xfe0c⟩
def stloc : Opcode := ⟨0xfe0e⟩

/-! ### Short and long forms of branches -/

/-- The branch with an 8-bit displacement that does the same. -/
def shortForm? (op : Opcode) : Option Opcode :=
  if 0x38 ≤ op.code ∧ op.code ≤ 0x44 then some ⟨op.code - 0x0d⟩
  else if op = leave then some leaveShort
  else none

/-- The branch with a 32-bit displacement that does the same. -/
def longForm? (op : Opcode) : Option Opcode :=
  if 0x2b ≤ op.code ∧ op.code ≤ 0x37 then some ⟨op.code + 0x0d⟩
  else if op = leaveShort then some leave
  else none

/-- The long form of a short branch, and every other opcode itself. -/
def widened (op : Opcode) : Opcode := op.longForm?.getD op

end Opcode

end MethodWeave
