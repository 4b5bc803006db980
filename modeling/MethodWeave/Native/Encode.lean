import MethodWeave.Metadata
import MethodWeave.Native.Layout
import MethodWeave.Native.Region
/-!
Writing a native stream as a method body.

A stream is first checked: every operand fits its opcode and no label marks two instructions.  Then
branch forms are settled, the bytes written, and the exception table built.  User strings that the
module does not know yet are interned as they are written; they stay interned when a later
instruction fails.
-/

namespace MethodWeave

/-- Errors of writing a stream.  The index is the place of the instruction in the stream. -/
inductive EncodeError where
  | unknownOpcode (index : Nat) (opcode : Opcode)
  | operandMismatch (index : Nat) (opcode : Opcode)
  | unboundLabel (index : Nat) (label : NativeLabel)
  | labelRebound (index : Nat) (label : NativeLabel)
  | immediateOutOfRange (index : Nat) (value : Int)
  | unbalancedRegions (index : Nat)
  | unknownLocal (index : Nat) (slot : UInt16)
deriving DecidableEq, Repr

namespace EncodeError

/-- The stream position an error speaks of. -/
def index : EncodeError → Nat
  | .unknownOpcode i _ | .operandMismatch i _ | .unboundLabel i _ | .labelRebound i _
  | .immediateOutOfRange i _ | .unbalancedRegions i | .unknownLocal i _ => i

def reason : EncodeError → String
  | .unknownOpcode _ opcode => "unknown opcode 0x" ++ Text.hex 4 opcode.code.toNat
  | .operandMismatch _ opcode =>
    "operand does not match the operand class of `" ++ opcode.mnemonic ++ "`"
  | .unboundLabel _ label => "label " ++ label.text ++ " is never marked"
  | .labelRebound _ label => "label " ++ label.text ++ " is already marked"
  | .immediateOutOfRange _ value => "immediate " ++ toString value ++ " does not fit the operand"
  | .unbalancedRegions _ => "unbalanced exception block markers"
  | .unknownLocal _ slot => "local " ++ toString slot.toNat ++ " is not declared"

def message (e : EncodeError) : String := s!"instruction {e.index}: " ++ e.reason

/-- The word for the kind of error. -/
def kind : EncodeError → String
  | .unknownOpcode _ _ => "UnknownOpcode"
  | .operandMismatch _ _ => "OperandMismatch"
  | .unboundLabel _ _ => "UnboundLabel"
  | .labelRebound _ _ => "LabelRebound"
  | .immediateOutOfRange _ _ => "ImmediateOutOfRange"
  | .unbalancedRegions _ => "UnbalancedBlocks"
  | .unknownLocal _ _ => "UnknownLocal"

end EncodeError

/-! ### Checks before layout -/

/-- Does a payload suit an opcode's operand class and flags? -/
def Opcode.Info.suits {τ : Type} (i : Opcode.Info) (payload : Payload τ) : Bool :=
  match i.operand, payload with
  | .none, .none => true
  | .shortBranch, .label _ | .branch, .label _ => true
  | .switch, .labels _ => true
  | .shortInt, .int32 _ | .int, .int32 _ => true
  | .int8, .int64 _ => true
  | .shortReal, .float32 _ => true
  | .real, .float64 _ => true
  | .string, .string _ => true
  | .method, .member (.method _) => true
  | .field, .member (.field _) => true
  | .type, .member (.type _) => true
  | .member, .member _ => true
  | .signature, .signature _ => true
  | .shortVar, .local _ | .var, .local _ => i.has .local
  | .shortVar, .argument _ | .var, .argument _ => i.has .argument
  | _, _ => false

/-- The opcode is known and the payload suits it. -/
def NativeInstruction.check (index : Nat) (i : NativeInstruction) : Except EncodeError Unit :=
  match i.opcode.info? with
  | none => .error (.unknownOpcode index i.opcode)
  | some info =>
    if info.suits i.operand then .ok () else .error (.operandMismatch index i.opcode)

/-- Every instruction passes its check. -/
def checkFrom (index : Nat) : List NativeInstruction → Except EncodeError Unit
  | [] => .ok ()
  | i :: rest => do
    i.check index
    checkFrom (index + 1) rest

/-- Add labels to those already bound, unless one of them is. -/
def bindAll (index : Nat) : List NativeLabel → List NativeLabel → Except EncodeError (List NativeLabel)
  | bound, [] => .ok bound
  | bound, l :: rest =>
    if l ∈ bound then .error (.labelRebound index l) else bindAll index (l :: bound) rest

/-- No label marks two places of the stream. -/
def checkLabelsFrom (index : Nat) (bound : List NativeLabel) :
    List NativeInstruction → Except EncodeError Unit
  | [] => .ok ()
  | i :: rest => do
    let bound ← bindAll index bound i.labels
    checkLabelsFrom (index + 1) bound rest

/-! ### Bytes -/

/-- A displacement as a signed 32-bit word. -/
def displacementBytes (d : Int) : List UInt8 := Bytes.ofUInt32 (Int32.ofInt d).toUInt32

/-- An index of a local or an argument, in as many bytes as the class has. -/
def varBytes (index : Nat) (operand : OperandClass) (slot : UInt16) :
    Except EncodeError (List UInt8) :=
  if operand = .shortVar then
    if slot.toNat < 256 then .ok [slot.toUInt8]
    else .error (.immediateOutOfRange index slot.toNat)
  else .ok (Bytes.ofUInt16 slot)

/-- The bytes of an operand; `stringToken` is the token of the string that it loads, if it loads
one. -/
def Placed.operandBytes (p : Placed) (index : Nat) (bound : List (NativeLabel × Nat))
    (localCount : Nat) (stringToken : Token) : Except EncodeError (List UInt8) :=
  let reach (l : NativeLabel) : Except EncodeError Int :=
    match p.displacement? bound l with
    | some d => .ok d
    | none => .error (.unboundLabel index l)
  match p.form.operandClass?, p.insn.operand with
  | some .shortBranch, .label l => do return [(Int8.ofInt (← reach l)).toUInt8]
  | some .branch, .label l => do return displacementBytes (← reach l)
  | some .switch, .labels ls => do
    let ds ← ls.mapM reach
    return Bytes.ofNat 4 ls.length ++ ds.flatMap displacementBytes
  | some .shortInt, .int32 v =>
    if -128 ≤ v.toInt ∧ v.toInt ≤ 127 then .ok [v.toInt8.toUInt8]
    else .error (.immediateOutOfRange index v.toInt)
  | _, .int32 v => .ok (Bytes.ofUInt32 v.toUInt32)
  | _, .int64 v => .ok (Bytes.ofUInt64 v.toUInt64)
  | _, .float32 v => .ok (Bytes.ofUInt32 v.bits)
  | _, .float64 v => .ok (Bytes.ofUInt64 v.bits)
  | _, .string _ => .ok (Bytes.ofUInt32 stringToken.value)
  | _, .member m => .ok (Bytes.ofUInt32 m.token.value)
  | _, .signature s => .ok (Bytes.ofUInt32 s.token.value)
  | some c, .local l =>
    if l.index.toNat < localCount then varBytes index c l.index
    else .error (.unknownLocal index l.index)
  | some c, .argument slot => varBytes index c slot
  | _, .none => .ok []
  | _, _ => .error (.operandMismatch index p.insn.opcode)

variable {μ : Type} [Metadata μ]

/-- The token of the string that an instruction loads, interned if it is new. An instruction that
loads none leaves the metadata alone. -/
def Placed.internString (p : Placed) (metadata : μ) : Token × μ :=
  match p.insn.operand with
  | .string s => Metadata.intern metadata s
  | _ => (default, metadata)

/-- Write instructions one behind the other, interning strings on the way. -/
def writeFrom (bound : List (NativeLabel × Nat)) (localCount : Nat) (index : Nat) (metadata : μ) :
    List Placed → Except EncodeError (List UInt8) × μ
  | [] => (.ok [], metadata)
  | p :: rest =>
    let (token, metadata) := p.internString metadata
    match p.operandBytes index bound localCount token with
    | .error e => (.error e, metadata)
    | .ok operand =>
      let (more, metadata) := writeFrom bound localCount (index + 1) metadata rest
      (more.map fun more => p.form.bytes ++ operand ++ more, metadata)

/-- Encode a stream with the locals of the generator, and give the metadata with every string that
was interned. -/
def Generator.encode (g : Generator) (stream : List NativeInstruction) (metadata : μ) :
    Except EncodeError Body × μ :=
  match checkFrom 0 stream >>= fun _ => checkLabelsFrom 0 [] stream with
  | .error e => (.error e, metadata)
  | .ok () =>
    let placed := settle stream
    let (code, metadata) := writeFrom (bindings placed) g.locals.length 0 metadata placed
    let body := code >>= fun code =>
      match clausesFrom (codeSize placed) 0 {} (placed.map fun p => (p.start, p.insn.markers)) with
      | .error index => .error (.unbalancedRegions index)
      | .ok clauses => .ok { code := code, locals := g.locals, clauses := clauses }
    (body, metadata)

end MethodWeave
