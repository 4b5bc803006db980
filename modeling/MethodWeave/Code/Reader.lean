import MethodWeave.Opcode.Table
/-!
Reading code bytes from left to right.

A reader keeps what is left of the code, the position it has reached and the position at which the
instruction being read began; errors name that last position.  A read that fails gives no new
reader, so whoever holds the old one is still where it was.

Main statement: `Opcode.read_bytes`, an opcode is read back from its bytes.
-/

namespace MethodWeave

/-- Errors of reading raw code.  The offset is that of the instruction. -/
inductive ReadError where
  | invalidOpcode (offset : Nat)
  | truncated (offset : Nat)
deriving DecidableEq, Repr

def ReadError.message : ReadError → String
  | .invalidOpcode offset => s!"invalid opcode at offset {offset}"
  | .truncated offset => s!"truncated instruction at offset {offset}"

/-- The word for the kind of error. -/
def ReadError.kind : ReadError → String
  | .invalidOpcode _ => "InvalidOpcode"
  | .truncated _ => "Truncated"

/-- The row of the opcode that `bytes` begin with; `offset` is where they stand. -/
def Opcode.read (offset : Nat) : List UInt8 → Except ReadError Opcode.Info
  | [] => .error (.truncated offset)
  | first :: rest =>
    if first = 0xfe then
      match rest with
      | [] => .error (.truncated offset)
      | second :: _ =>
        match (Opcode.mk (0xfe00 + second.toUInt16)).info? with
        | some info => .ok info
        | none => .error (.invalidOpcode offset)
    else
      match (Opcode.mk first.toUInt16).info? with
      | some info => .ok info
      | none => .error (.invalidOpcode offset)

/-- An opcode of the table is read back from its bytes, whatever follows them. -/
theorem Opcode.read_bytes {op : Opcode} {i : Opcode.Info} (h : op.info? = some i) (offset : Nat)
    (rest : List UInt8) : Opcode.read offset (op.bytes ++ rest) = .ok i := by
  have hc := Opcode.code_of_mem_table i (Opcode.mem_table_of_info? h)
  rw [Opcode.opcode_of_info? h] at hc
  obtain ⟨code⟩ := op
  change if code.toNat > 0xff then code.toNat / 256 = 0xfe else code.toNat ≠ 0xfe at hc
  have hlt := code.toNat_lt
  by_cases hsize : code.toNat > 0xff
  · rw [if_pos hsize] at hc
    have hcode : (0xfe00 : UInt16) + code.toUInt8.toUInt16 = code := by
      apply UInt16.toNat_inj.1
      rw [UInt16.toNat_add, UInt8.toNat_toUInt16, UInt16.toNat_toUInt8]
      show (65024 + _) % _ = _
      omega
    simp only [Opcode.bytes, hsize, if_true, List.cons_append, List.nil_append, Opcode.read, hcode,
      h]
  · rw [if_neg hsize] at hc
    have hcode : code.toUInt8.toUInt16 = code := by
      apply UInt16.toNat_inj.1
      rw [UInt8.toNat_toUInt16, UInt16.toNat_toUInt8]
      omega
    have hfirst : code.toUInt8 ≠ 0xfe := by
      intro hf
      rw [hf] at hcode
      exact hc (by rw [← hcode]; rfl)
    simp only [Opcode.bytes, hsize, if_false, List.cons_append, List.nil_append, Opcode.read,
      hfirst, hcode, h]

/-- A place in the code of a body. -/
structure Reader where
  rest : List UInt8
  position : Nat := 0
  /-- Where the instruction being read began. -/
  start : Nat := 0

namespace Reader

def ofBytes (code : List UInt8) : Reader := { rest := code }

/-- Bytes of the whole code. -/
def length (r : Reader) : Nat := r.position + r.rest.length

/-- Bytes not yet read. -/
def remaining (r : Reader) : Nat := r.rest.length

def isEmpty (r : Reader) : Bool := r.rest.isEmpty

/-- The error of an instruction that the code breaks off in. -/
def truncated (r : Reader) : ReadError := .truncated r.start

/-- Begin a new instruction here. -/
def mark (r : Reader) : Reader := { r with start := r.position }

/-- Go on by `n` bytes. -/
def skip (r : Reader) (n : Nat) : Reader :=
  { r with rest := r.rest.drop n, position := r.position + n }

/-- Begin a new instruction and read its opcode. -/
def opcode (r : Reader) : Except ReadError (Opcode.Info × Reader) := do
  let info ← Opcode.read r.position r.rest
  return (info, r.mark.skip info.opcode.size)

/-- The next `n` bytes. -/
def take (n : Nat) (r : Reader) : Except ReadError (List UInt8 × Reader) :=
  let bytes := r.rest.take n
  if bytes.length = n then .ok (bytes, r.skip n) else .error r.truncated

/-- A word of `n` bytes as a natural number. -/
def word (n : Nat) (r : Reader) : Except ReadError (Nat × Reader) := do
  let (bytes, r) ← r.take n
  return (Bytes.toNat bytes, r)

def u8 (r : Reader) : Except ReadError (UInt8 × Reader) := do
  let (n, r) ← r.word 1
  return (UInt8.ofNat n, r)

def u16 (r : Reader) : Except ReadError (UInt16 × Reader) := do
  let (n, r) ← r.word 2
  return (UInt16.ofNat n, r)

def u32 (r : Reader) : Except ReadError (UInt32 × Reader) := do
  let (n, r) ← r.word 4
  return (UInt32.ofNat n, r)

def u64 (r : Reader) : Except ReadError (UInt64 × Reader) := do
  let (n, r) ← r.word 8
  return (UInt64.ofNat n, r)

def i8 (r : Reader) : Except ReadError (Int8 × Reader) := do
  let (n, r) ← r.u8
  return (n.toInt8, r)

def i32 (r : Reader) : Except ReadError (Int32 × Reader) := do
  let (n, r) ← r.u32
  return (n.toInt32, r)

def i64 (r : Reader) : Except ReadError (Int64 × Reader) := do
  let (n, r) ← r.u64
  return (n.toInt64, r)

/-! ### Reading back what was written -/

/-- Going on by the length of the bytes at the front leaves those behind them. -/
theorem rest_skip {r : Reader} {bytes rest : List UInt8} (h : r.rest = bytes ++ rest) :
    (r.skip bytes.length).rest = rest := by
  simp [skip, h]

end Reader

end MethodWeave
