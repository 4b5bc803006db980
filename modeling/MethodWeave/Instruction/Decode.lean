import MethodWeave.Instruction.Basic
import MethodWeave.Instruction.Region
/-!
Reading a method body as rewritable instructions.

The code is scanned from left to right; a scanned instruction still has code positions for jump
targets.  Then each position that is a jump target gets a label, numbered in the order of first
mention.  Finally labels and region markers are attached to the instructions at their positions.
Of several faults in a body the one met first on this way is reported; labels handed out before it
stay handed out.

Positions are plain numbers.  Those of a code of less than `2 ^ 32` bytes have 32 bits, and a jump
to a target that does not fit them is refused (`PositionLabels.target`).
-/

namespace MethodWeave

/-! ### Scanning the code -/

/-- An instruction as it stands in the code, its jump targets being code positions. -/
structure Scanned where
  offset : Nat
  info : Opcode.Info
  payload : Payload Int
deriving Repr

/-- Let a read's error be an error of decoding. -/
def InstructionError.ofRead {α : Type} (r : Except ReadError α) : Except InstructionError α :=
  r.mapError .read

namespace Reader

/-- `count` displacements of a jump table that ends at `base`, as positions. -/
def targets (base : Int) : Nat → Reader → Except ReadError (List Int × Reader)
  | 0, r => .ok ([], r)
  | count + 1, r => do
    let (d, r) ← r.i32
    let (rest, r) ← targets base count r
    return ((base + d.toInt) :: rest, r)

/-- A jump table.  A count that the rest of the code cannot hold is refused at once. -/
def jumpTable (r : Reader) : Except ReadError (List Int × Reader) := do
  let (count, r) ← r.u32
  if count.toNat > r.remaining / 4 then .error r.truncated
  else r.targets ((r.position + 4 * count.toNat : Nat) : Int) count.toNat

end Reader

section

variable {μ : Type} [Metadata μ]

/-- A token that resolves, or an error at `offset`. -/
def resolveToken {α : Type} (offset : Nat) (token : Token) (found : Option α) :
    Except InstructionError α :=
  match found with
  | some a => .ok a
  | none => .error (.unresolvedToken offset token)

/-- Read the payload that an opcode's row asks for. -/
def Reader.payload (metadata : μ) (locals : List TypeRef) (offset : Nat) (info : Opcode.Info)
    (r : Reader) : Except InstructionError (Payload Int × Reader) := do
  match info.operand with
  | .none => return (.none, r)
  | .shortBranch =>
    let (d, r) ← InstructionError.ofRead r.i8
    return (.label (r.position + d.toInt), r)
  | .branch =>
    let (d, r) ← InstructionError.ofRead r.i32
    return (.label (r.position + d.toInt), r)
  | .shortInt =>
    let (v, r) ← InstructionError.ofRead r.i8
    return (.int32 v.toInt32, r)
  | .int =>
    let (v, r) ← InstructionError.ofRead r.i32
    return (.int32 v, r)
  | .int8 =>
    let (v, r) ← InstructionError.ofRead r.i64
    return (.int64 v, r)
  | .shortReal =>
    let (v, r) ← InstructionError.ofRead r.u32
    return (.float32 ⟨v⟩, r)
  | .real =>
    let (v, r) ← InstructionError.ofRead r.u64
    return (.float64 ⟨v⟩, r)
  | .string =>
    let (v, r) ← InstructionError.ofRead r.u32
    let s ← resolveToken offset ⟨v⟩ (Metadata.userString? metadata ⟨v⟩)
    return (.string s, r)
  | .field | .method | .type | .member =>
    let (v, r) ← InstructionError.ofRead r.u32
    let m ← resolveToken offset ⟨v⟩ (Metadata.member? metadata ⟨v⟩)
    if info.suits (.member m : Payload Int) then return (.member m, r)
    else throw (.unresolvedToken offset ⟨v⟩)
  | .signature =>
    let (v, r) ← InstructionError.ofRead r.u32
    let s ← resolveToken offset ⟨v⟩ (Metadata.signature? metadata ⟨v⟩)
    return (.signature s, r)
  | .shortVar | .var =>
    let (index, r) ←
      if info.operand = .shortVar then
        (InstructionError.ofRead r.u8).map fun (v, r) => (v.toUInt16, r)
      else InstructionError.ofRead r.u16
    if info.has .local then
      match locals[index.toNat]? with
      | some type => return (.local ⟨index, type⟩, r)
      | none => throw (.unknownLocal offset index)
    else return (.argument index, r)
  | .switch =>
    let (targets, r) ← InstructionError.ofRead r.jumpTable
    return (.labels targets, r)

/-- Read one instruction. -/
def Reader.instruction (metadata : μ) (locals : List TypeRef) (r : Reader) :
    Except InstructionError (Scanned × Reader) := do
  let offset := r.position
  let (info, r) ← InstructionError.ofRead r.opcode
  let (payload, r) ← r.payload metadata locals offset info
  return (⟨offset, info, payload⟩, r)

/-- Read instructions to the end of the code, at most `limit` of them, and the error that ended the
reading early, if one did. -/
def Reader.instructions (metadata : μ) (locals : List TypeRef) :
    (limit : Nat) → Reader → List Scanned × Option InstructionError
  | 0, _ => ([], none)
  | limit + 1, r =>
    if r.isEmpty then ([], none)
    else
      match r.instruction metadata locals with
      | .error e => ([], some e)
      | .ok (first, r) =>
        let (rest, e) := Reader.instructions metadata locals limit r
        (first :: rest, e)

/-- Scan the code of a body.  Every instruction takes a byte at least, so there are no more
instructions than bytes. -/
def Body.scan (metadata : μ) (body : Body) : List Scanned × Option InstructionError :=
  (Reader.ofBytes body.code).instructions metadata body.locals body.code.length

end

/-! ### Labels for positions -/

/-- The labels of one body: one for every position that is a jump target. -/
structure PositionLabels where
  supply : LabelSupply := {}
  labels : KeyMap Label := {}
deriving Inhabited

namespace PositionLabels

/-- The label of a position, made at its first mention. -/
def label (position : Nat) (s : PositionLabels) : Label × PositionLabels :=
  match s.labels.get? position with
  | some l => (l, s)
  | none =>
    let (l, supply) := s.supply.free
    (l, { supply := supply, labels := s.labels.insert position l })

/-- The label of a jump target, which has to be a position of 32 bits. -/
def target (t : Int) : ExceptT InstructionError (StateM PositionLabels) Label :=
  if 0 ≤ t ∧ t < 0x100000000 then liftM (m := StateM PositionLabels) (label t.toNat)
  else throw (.invalidBranchTarget t)

/-- Number and position of every label, by increasing position. -/
def positions (s : PositionLabels) : List (Label × Nat) :=
  s.labels.entries.map fun (position, l) => (l, position)

end PositionLabels

/-- A scanned instruction with labels for its targets. -/
def Scanned.labelled (s : Scanned) :
    ExceptT InstructionError (StateM PositionLabels) Instruction := do
  let payload ← s.payload.mapTargetsM PositionLabels.target
  let empty := Operand.emptyFor s.info
  return { opcode := s.info.opcode, operand := (empty.store payload).getD empty
           offset? := some s.offset }

/-! ### Attaching labels and markers -/

/-- The first label whose position is not the beginning of an instruction. -/
def firstUnattached? (offsets : List Nat) (labels : KeyMap Label) : Option Nat :=
  (labels.entries.find? fun (position, _) => !offsets.contains position).map (·.1)

/-- An instruction with the label of its offset and the markers there. -/
def Instruction.attach (labels : KeyMap Label) (markers : List PlacedMarker) (i : Instruction) :
    Instruction :=
  match i.offset? with
  | none => i
  | some offset =>
    { i with
      labels := (labels.get? offset).toList
      markers := PlacedMarker.at? offset markers }

section

variable {μ : Type} [Metadata μ]

/-- Read a body, handing out labels as jump targets are met. -/
def Body.instructions (metadata : μ) (body : Body) :
    ExceptT InstructionError (StateM PositionLabels) (List Instruction) := do
  let (scanned, failure) := body.scan metadata
  let instructions ← scanned.mapM Scanned.labelled
  match failure with
  | some e => throw e
  | none =>
    let offsets := scanned.map (·.offset)
    let labels := (← get).labels
    match firstUnattached? offsets labels with
    | some position => throw (.invalidBranchTarget position)
    | none =>
      let markers := PlacedMarker.ofClauses body.clauses
      match PlacedMarker.firstMisplaced? body.code.length offsets markers with
      | some position => throw (.invalidRegion position)
      | none => return instructions.map (Instruction.attach labels markers)

/-- Read a body with labels from `supply`; with the outcome, the labels handed out. -/
def Body.decode (metadata : μ) (body : Body) (supply : LabelSupply) :
    Except InstructionError (List Instruction) × PositionLabels :=
  (body.instructions metadata).run { supply := supply }

/-- Read bodies one after the other. -/
def Body.decodeAll (metadata : μ) : List Body → LabelSupply →
    List (Except InstructionError (List Instruction) × PositionLabels) × LabelSupply
  | [], supply => ([], supply)
  | body :: rest, supply =>
    let (first, labels) := body.decode metadata supply
    let (others, supply) := decodeAll metadata rest labels.supply
    ((first, labels) :: others, supply)

end

end MethodWeave
