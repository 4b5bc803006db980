import MethodWeave.Instruction.Decode
import MethodWeave.Proofs.Code.Words
import MethodWeave.Proofs.Opcode.Forms
/-!
The format of code bytes as a relation, and the scan of a body as its decision procedure.

`Payload.Spelled` says which bytes spell the payload of an instruction, class by class;
`Spelling` says that bytes are instructions one behind the other.  The relation does not compute:
it is what a reader and a writer of code are both held against.

Main result: a body is scanned without error into a list of instructions exactly when its code
spells that list (`scan_eq_iff`).
-/

namespace MethodWeave

/-! ### Opcodes -/

/-- The bytes of a two-byte code. -/
theorem Opcode.bytes_prefixed (second : UInt8) :
    (Opcode.mk (0xfe00 + second.toUInt16)).bytes = [0xfe, second] := by
  have hs := second.toNat_lt
  have hcode : ((0xfe00 : UInt16) + second.toUInt16).toNat = 0xfe00 + second.toNat := by
    rw [UInt16.toNat_add, UInt8.toNat_toUInt16]
    show (65024 + _) % _ = _
    omega
  have hlow : ((0xfe00 : UInt16) + second.toUInt16).toUInt8 = second := by
    apply UInt8.toNat_inj.1
    rw [UInt16.toNat_toUInt8, hcode]
    omega
  unfold Opcode.bytes
  rw [if_pos (by rw [hcode]; omega), hlow]

/-- The bytes of a one-byte code. -/
theorem Opcode.bytes_plain (first : UInt8) : (Opcode.mk first.toUInt16).bytes = [first] := by
  have hf := first.toNat_lt
  unfold Opcode.bytes
  rw [if_neg (by rw [UInt8.toNat_toUInt16]; omega), UInt8.toUInt8_toUInt16]

/-- An opcode is read exactly when the bytes of an opcode of the table stand in front. -/
theorem Opcode.read_iff {offset : Nat} {bytes : List UInt8} {i : Opcode.Info} :
    Opcode.read offset bytes = .ok i ↔
      i.opcode.info? = some i ∧ ∃ rest, bytes = i.opcode.bytes ++ rest := by
  constructor
  · intro h
    -- the row that is found is that of the opcode, so its bytes are those that were read
    have found {op : Opcode} (hop : op.info? = some i) :
        i.opcode.info? = some i ∧ i.opcode = op := by
      have := Opcode.opcode_of_info? hop
      exact ⟨this ▸ hop, this⟩
    cases bytes with
    | nil => simp [Opcode.read] at h
    | cons first rest =>
      -- a prefix byte announces an opcode of two bytes
      by_cases hfirst : first = 0xfe
      · subst hfirst
        cases rest with
        | nil => simp [Opcode.read] at h
        | cons second rest =>
          cases hop : (Opcode.mk (0xfe00 + second.toUInt16)).info? with
          | none => simp [Opcode.read, hop] at h
          | some info =>
            simp only [Opcode.read, if_true, hop, Except.ok.injEq] at h
            obtain ⟨hrow, heq⟩ := found (h ▸ hop)
            exact ⟨hrow, rest, by rw [heq, Opcode.bytes_prefixed]; rfl⟩
      · cases hop : (Opcode.mk first.toUInt16).info? with
        | none => simp [Opcode.read, hfirst, hop] at h
        | some info =>
          simp only [Opcode.read, hfirst, if_false, hop, Except.ok.injEq] at h
          obtain ⟨hrow, heq⟩ := found (h ▸ hop)
          exact ⟨hrow, rest, by rw [heq, Opcode.bytes_plain]; rfl⟩
  · rintro ⟨hrow, rest, rfl⟩
    exact Opcode.read_bytes hrow offset rest

theorem Reader.opcode_iff {r r' : Reader} {i : Opcode.Info} :
    r.opcode = .ok (i, r') ↔ i.opcode.info? = some i ∧ r.mark.Passes i.opcode.bytes r' := by
  simp only [Reader.opcode, bind_eq_ok_iff, pure_eq_ok_iff, Prod.mk.injEq, Opcode.read_iff]
  constructor
  · rintro ⟨info, ⟨hrow, rest, hrest⟩, rfl, rfl⟩
    exact ⟨hrow, ⟨rest, hrest⟩, by rw [Opcode.length_bytes]⟩
  · rintro ⟨hrow, ⟨rest, hrest⟩, rfl⟩
    exact ⟨i, ⟨hrow, rest, hrest⟩, rfl, by rw [Opcode.length_bytes]⟩

/-! ### Payloads -/

section

variable {μ : Type} [Metadata μ]

/-- The bytes of the payload of an instruction with a given row, for an operand that ends at `stop`;
jump targets are code positions. -/
inductive Payload.Spelled (metadata : μ) (locals : List TypeRef) (info : Opcode.Info) (stop : Nat) :
    Payload Int → List UInt8 → Prop
  | none : info.operand = .none → Spelled metadata locals info stop .none []
  | shortBranch (d : Int8) : info.operand = .shortBranch →
      Spelled metadata locals info stop (.label (stop + d.toInt)) [d.toUInt8]
  | branch (d : Int32) : info.operand = .branch →
      Spelled metadata locals info stop (.label (stop + d.toInt)) (Bytes.ofUInt32 d.toUInt32)
  | shortInt (v : Int8) : info.operand = .shortInt →
      Spelled metadata locals info stop (.int32 v.toInt32) [v.toUInt8]
  | int (v : Int32) : info.operand = .int →
      Spelled metadata locals info stop (.int32 v) (Bytes.ofUInt32 v.toUInt32)
  | int8 (v : Int64) : info.operand = .int8 →
      Spelled metadata locals info stop (.int64 v) (Bytes.ofUInt64 v.toUInt64)
  | shortReal (v : Binary32) : info.operand = .shortReal →
      Spelled metadata locals info stop (.float32 v) (Bytes.ofUInt32 v.bits)
  | real (v : Binary64) : info.operand = .real →
      Spelled metadata locals info stop (.float64 v) (Bytes.ofUInt64 v.bits)
  | string (t : Token) (s : String) : info.operand = .string →
      Metadata.userString? metadata t = some s →
      Spelled metadata locals info stop (.string s) (Bytes.ofUInt32 t.value)
  | member (t : Token) (m : Member) : info.operand.isMember = true →
      Metadata.member? metadata t = some m → info.suits (.member m : Payload Int) = true →
      Spelled metadata locals info stop (.member m) (Bytes.ofUInt32 t.value)
  | signature (t : Token) (s : Signature) : info.operand = .signature →
      Metadata.signature? metadata t = some s →
      Spelled metadata locals info stop (.signature s) (Bytes.ofUInt32 t.value)
  | shortLocal (i : UInt8) (type : TypeRef) : info.operand = .shortVar → info.has .local = true →
      locals[i.toUInt16.toNat]? = some type →
      Spelled metadata locals info stop (.local ⟨i.toUInt16, type⟩) [i]
  | local (i : UInt16) (type : TypeRef) : info.operand = .var → info.has .local = true →
      locals[i.toNat]? = some type →
      Spelled metadata locals info stop (.local ⟨i, type⟩) (Bytes.ofUInt16 i)
  | shortArgument (i : UInt8) : info.operand = .shortVar → info.has .local = false →
      Spelled metadata locals info stop (.argument i.toUInt16) [i]
  | argument (i : UInt16) : info.operand = .var → info.has .local = false →
      Spelled metadata locals info stop (.argument i) (Bytes.ofUInt16 i)
  | switch (count : UInt32) (ds : List Int32) : info.operand = .switch → ds.length = count.toNat →
      Spelled metadata locals info stop (.labels (ds.map fun d => (stop : Int) + d.toInt))
        (Bytes.ofUInt32 count ++ ds.flatMap fun d => Bytes.ofUInt32 d.toUInt32)

end

/-! ### Jump tables -/

theorem length_flatMap_ofUInt32 (ds : List Int32) :
    (ds.flatMap fun d => Bytes.ofUInt32 d.toUInt32).length = 4 * ds.length := by
  induction ds with
  | nil => rfl
  | cons d ds ih =>
    simp only [List.flatMap_cons, List.length_append, ih, Bytes.length_ofUInt32, List.length_cons]
    omega

namespace Reader

theorem targets_iff {base : Int} {count : Nat} {r r' : Reader} {ts : List Int} :
    r.targets base count = .ok (ts, r') ↔
      ∃ ds : List Int32, ds.length = count ∧ ts = ds.map (fun d => base + d.toInt) ∧
        r.Passes (ds.flatMap fun d => Bytes.ofUInt32 d.toUInt32) r' := by
  induction count generalizing r r' ts with
  | zero =>
    simp only [targets, Except.ok.injEq, Prod.mk.injEq, List.length_eq_zero_iff]
    constructor
    · rintro ⟨rfl, rfl⟩
      exact ⟨[], rfl, rfl, r.passes_nil⟩
    · rintro ⟨ds, rfl, rfl, hpass⟩
      exact ⟨rfl, (passes_nil_iff.1 hpass).symm⟩
  | succ count ih =>
    simp only [targets, bind_eq_ok_iff, pure_eq_ok_iff, Prod.exists, Prod.mk.injEq, i32_iff, ih]
    constructor
    · rintro ⟨d, r₁, hd, rest, r₂, ⟨ds, rfl, rfl, hds⟩, rfl, rfl⟩
      exact ⟨d :: ds, rfl, rfl, passes_append_iff.2 ⟨r₁, hd, hds⟩⟩
    · rintro ⟨ds, hlen, rfl, hpass⟩
      obtain ⟨d, ds, rfl⟩ := List.exists_cons_of_length_eq_add_one hlen
      obtain ⟨r₁, hd, hds⟩ := passes_append_iff.1 hpass
      exact ⟨d, r₁, hd, _, r', ⟨ds, by simpa using hlen, rfl, hds⟩, rfl, rfl⟩

theorem jumpTable_iff {r r' : Reader} {ts : List Int} :
    r.jumpTable = .ok (ts, r') ↔
      ∃ (count : UInt32) (ds : List Int32), ds.length = count.toNat ∧
        ts = ds.map (fun d => (r'.position : Int) + d.toInt) ∧
        r.Passes (Bytes.ofUInt32 count ++ ds.flatMap fun d => Bytes.ofUInt32 d.toUInt32) r' := by
  simp only [jumpTable, bind_eq_ok_iff, Prod.exists, u32_iff, passes_append_iff]
  constructor
  · rintro ⟨count, r₁, hcount, h⟩
    split at h
    · cases h
    · obtain ⟨ds, hlen, rfl, hpass⟩ := targets_iff.1 h
      refine ⟨count, ds, hlen, ?_, r₁, hcount, hpass⟩
      rw [hpass.position, length_flatMap_ofUInt32, hlen]
  · rintro ⟨count, ds, hlen, rfl, r₁, hcount, hpass⟩
    refine ⟨count, r₁, hcount, ?_⟩
    -- the displacements stand in front, so the count is not too large
    have hroom : ¬ count.toNat > r₁.remaining / 4 := by
      have := congrArg List.length hpass.rest
      rw [List.length_append, length_flatMap_ofUInt32, hlen] at this
      simp only [remaining]
      omega
    rw [if_neg hroom, targets_iff]
    refine ⟨ds, hlen, ?_, hpass⟩
    rw [hpass.position, length_flatMap_ofUInt32, hlen]

end Reader

theorem InstructionError.ofRead_iff {α : Type} {x : Except ReadError α} {a : α} :
    InstructionError.ofRead x = .ok a ↔ x = .ok a :=
  mapError_eq_ok_iff

/-- A read at the head of a computation, and what follows it. -/
theorem InstructionError.ofRead_bind_iff {α β : Type} {x : Except ReadError (α × Reader)}
    {f : α × Reader → Except InstructionError β} {b : β} :
    (ofRead x >>= f) = .ok b ↔ ∃ a r, x = .ok (a, r) ∧ f (a, r) = .ok b := by
  simp only [bind_eq_ok_iff, ofRead_iff, Prod.exists]

theorem resolveToken_iff {α : Type} {offset : Nat} {t : Token} {found : Option α} {a : α} :
    resolveToken offset t found = .ok a ↔ found = some a := by
  cases found <;> simp [resolveToken]

variable {μ : Type} [Metadata μ] {metadata : μ} {locals : List TypeRef}

/-! ### Reading a payload -/

section

variable {offset : Nat} {info : Opcode.Info} {r r' : Reader} {p : Payload Int}

theorem Reader.payload_of_isMember (hc : info.operand.isMember = true) :
    r.payload metadata locals offset info = (do
      let (v, r) ← InstructionError.ofRead r.u32
      let m ← resolveToken offset ⟨v⟩ (Metadata.member? metadata ⟨v⟩)
      if info.suits (.member m : Payload Int) then return (.member m, r)
      else throw (.unresolvedToken offset ⟨v⟩)) := by
  cases ho : info.operand <;> simp only [ho, OperandClass.isMember, Bool.false_eq_true] at hc
  all_goals simp only [Reader.payload, ho]

/-- A payload that is a single word is spelled by the bytes of that word. -/
theorem Reader.spelled_of_word {α : Type} {word : Except ReadError (α × Reader)}
    {bytes : α → List UInt8} {payload : α → Reader → Payload Int}
    (hword : ∀ {r₁ : Reader} {a : α}, word = .ok (a, r₁) ↔ r.Passes (bytes a) r₁)
    (hspelled : ∀ a (r₁ : Reader),
      (payload a r₁).Spelled metadata locals info r₁.position (bytes a))
    (h : (do
      let (a, r₁) ← InstructionError.ofRead word
      return (payload a r₁, r₁)) = .ok (p, r')) :
    ∃ bytes, r.Passes bytes r' ∧ p.Spelled metadata locals info r'.position bytes := by
  obtain ⟨a, r₁, hread, h⟩ := InstructionError.ofRead_bind_iff.1 h
  cases h
  exact ⟨bytes a, hword.1 hread, hspelled a _⟩

/-- The index of a slot that is read is a local's or an argument's, as the opcode says. -/
theorem Reader.spelled_of_variable {index : UInt16} {r₁ : Reader} {bytes : List UInt8}
    (hpass : r.Passes bytes r₁)
    (hlocal : ∀ type, info.has .local = true → locals[index.toNat]? = some type →
      (Payload.local ⟨index, type⟩ : Payload Int).Spelled metadata locals info r₁.position bytes)
    (hargument : info.has .local = false →
      (Payload.argument index : Payload Int).Spelled metadata locals info r₁.position bytes)
    (h : (if info.has .local then
        match locals[index.toNat]? with
        | some type => pure (.local ⟨index, type⟩, r₁)
        | none => throw (.unknownLocal offset index)
      else pure (.argument index, r₁)) = (.ok (p, r') : Except InstructionError _)) :
    ∃ bytes, r.Passes bytes r' ∧ p.Spelled metadata locals info r'.position bytes := by
  split at h
  · next hl =>
    split at h
    · next type htype => cases h; exact ⟨bytes, hpass, hlocal type hl htype⟩
    · cases h
  · next hl => cases h; exact ⟨bytes, hpass, hargument (by simpa using hl)⟩

/-- A payload that is read is spelled by the bytes passed over. -/
theorem Reader.spelled_of_payload (h : r.payload metadata locals offset info = .ok (p, r')) :
    ∃ bytes, r.Passes bytes r' ∧ p.Spelled metadata locals info r'.position bytes := by
  -- the class settles what is read; most classes are one word
  cases hc : info.operand with
  | none =>
    simp only [Reader.payload, hc, pure_eq_ok_iff] at h
    cases h
    exact ⟨[], r.passes_nil, .none hc⟩
  | shortBranch =>
    simp only [Reader.payload, hc] at h
    exact spelled_of_word Reader.i8_iff (fun d _ => .shortBranch d hc) h
  | branch =>
    simp only [Reader.payload, hc] at h
    exact spelled_of_word Reader.i32_iff (fun d _ => .branch d hc) h
  | shortInt =>
    simp only [Reader.payload, hc] at h
    exact spelled_of_word Reader.i8_iff (fun v _ => .shortInt v hc) h
  | int =>
    simp only [Reader.payload, hc] at h
    exact spelled_of_word Reader.i32_iff (fun v _ => .int v hc) h
  | int8 =>
    simp only [Reader.payload, hc] at h
    exact spelled_of_word Reader.i64_iff (fun v _ => .int8 v hc) h
  | shortReal =>
    simp only [Reader.payload, hc] at h
    exact spelled_of_word Reader.u32_iff (fun v _ => .shortReal ⟨v⟩ hc) h
  | real =>
    simp only [Reader.payload, hc] at h
    exact spelled_of_word Reader.u64_iff (fun v _ => .real ⟨v⟩ hc) h
  | string =>
    simp only [Reader.payload, hc, bind_eq_ok_iff, InstructionError.ofRead_iff, resolveToken_iff,
      Prod.exists, Reader.u32_iff, pure_eq_ok_iff] at h
    obtain ⟨v, r₁, hpass, s, hs, h⟩ := h
    cases h
    exact ⟨_, hpass, .string ⟨v⟩ s hc hs⟩
  | field | method | type | member =>
    -- whichever member is asked for, one that does not suit is refused
    have hm : info.operand.isMember = true := by rw [hc]; rfl
    rw [payload_of_isMember hm] at h
    simp only [bind_eq_ok_iff, InstructionError.ofRead_iff, resolveToken_iff, Prod.exists,
      Reader.u32_iff] at h
    obtain ⟨v, r₁, hpass, m, hfound, h⟩ := h
    split at h
    · next hsuits =>
      cases h
      exact ⟨_, hpass, .member ⟨v⟩ m hm hfound hsuits⟩
    · cases h
  | signature =>
    simp only [Reader.payload, hc, bind_eq_ok_iff, InstructionError.ofRead_iff, resolveToken_iff,
      Prod.exists, Reader.u32_iff, pure_eq_ok_iff] at h
    obtain ⟨v, r₁, hpass, s, hs, h⟩ := h
    cases h
    exact ⟨_, hpass, .signature ⟨v⟩ s hc hs⟩
  | shortVar =>
    simp only [Reader.payload, hc, if_true, bind_eq_ok_iff, map_eq_ok_iff,
      InstructionError.ofRead_iff, Prod.exists, Reader.u8_iff, Prod.mk.injEq] at h
    obtain ⟨_, _, ⟨i, r₁, hpass, rfl, rfl⟩, h⟩ := h
    exact spelled_of_variable hpass (fun type => .shortLocal i type hc) (.shortArgument i hc) h
  | var =>
    simp only [Reader.payload, hc, reduceCtorEq, if_false, InstructionError.ofRead_bind_iff,
      Reader.u16_iff] at h
    obtain ⟨i, r₁, hpass, h⟩ := h
    exact spelled_of_variable hpass (fun type => .local i type hc) (.argument i hc) h
  | switch =>
    simp only [Reader.payload, hc, InstructionError.ofRead_bind_iff, Reader.jumpTable_iff,
      pure_eq_ok_iff] at h
    obtain ⟨ts, r₁, ⟨count, ds, hlen, rfl, hpass⟩, h⟩ := h
    cases h
    exact ⟨_, hpass, .switch count ds hc hlen⟩

/-- A payload that the bytes in front spell is read. -/
theorem Reader.payload_of_spelled {bytes : List UInt8} (hpass : r.Passes bytes r')
    (h : p.Spelled metadata locals info r'.position bytes) :
    r.payload metadata locals offset info = .ok (p, r') := by
  -- the way of spelling says the class, and with it what the reader takes
  cases h with
  | none hc =>
    simp only [Reader.payload, hc, pure_eq_ok_iff, passes_nil_iff.1 hpass]
  | shortBranch d hc =>
    simp only [Reader.payload, hc, InstructionError.ofRead_bind_iff, Reader.i8_iff]
    exact ⟨d, r', hpass, rfl⟩
  | branch d hc =>
    simp only [Reader.payload, hc, InstructionError.ofRead_bind_iff, Reader.i32_iff]
    exact ⟨d, r', hpass, rfl⟩
  | shortInt v hc =>
    simp only [Reader.payload, hc, InstructionError.ofRead_bind_iff, Reader.i8_iff]
    exact ⟨v, r', hpass, rfl⟩
  | int v hc =>
    simp only [Reader.payload, hc, InstructionError.ofRead_bind_iff, Reader.i32_iff]
    exact ⟨v, r', hpass, rfl⟩
  | int8 v hc =>
    simp only [Reader.payload, hc, InstructionError.ofRead_bind_iff, Reader.i64_iff]
    exact ⟨v, r', hpass, rfl⟩
  | shortReal v hc =>
    simp only [Reader.payload, hc, InstructionError.ofRead_bind_iff, Reader.u32_iff]
    exact ⟨v.bits, r', hpass, rfl⟩
  | real v hc =>
    simp only [Reader.payload, hc, InstructionError.ofRead_bind_iff, Reader.u64_iff]
    exact ⟨v.bits, r', hpass, rfl⟩
  | string t s hc hs =>
    simp only [Reader.payload, hc, bind_eq_ok_iff, InstructionError.ofRead_iff, resolveToken_iff,
      Prod.exists, Reader.u32_iff]
    exact ⟨t.value, r', hpass, s, hs, rfl⟩
  | member t m hc hm hsuits =>
    rw [payload_of_isMember hc]
    simp only [bind_eq_ok_iff, InstructionError.ofRead_iff, resolveToken_iff, Prod.exists,
      Reader.u32_iff]
    exact ⟨t.value, r', hpass, m, hm, by rw [if_pos hsuits]; rfl⟩
  | signature t s hc hs =>
    simp only [Reader.payload, hc, bind_eq_ok_iff, InstructionError.ofRead_iff, resolveToken_iff,
      Prod.exists, Reader.u32_iff]
    exact ⟨t.value, r', hpass, s, hs, rfl⟩
  | shortLocal i type hc hl htype =>
    simp only [Reader.payload, hc, if_true, bind_eq_ok_iff, map_eq_ok_iff,
      InstructionError.ofRead_iff, Prod.exists, Reader.u8_iff]
    exact ⟨_, _, ⟨i, r', hpass, rfl⟩, by simp only [hl, if_true, htype]; rfl⟩
  | «local» i type hc hl htype =>
    simp only [Reader.payload, hc, reduceCtorEq, if_false, InstructionError.ofRead_bind_iff,
      Reader.u16_iff]
    exact ⟨i, r', hpass, by simp only [hl, if_true, htype]; rfl⟩
  | shortArgument i hc hl =>
    simp only [Reader.payload, hc, if_true, bind_eq_ok_iff, map_eq_ok_iff,
      InstructionError.ofRead_iff, Prod.exists, Reader.u8_iff]
    exact ⟨_, _, ⟨i, r', hpass, rfl⟩, by simp only [hl, Bool.false_eq_true, if_false]; rfl⟩
  | argument i hc hl =>
    simp only [Reader.payload, hc, reduceCtorEq, if_false, InstructionError.ofRead_bind_iff,
      Reader.u16_iff]
    exact ⟨i, r', hpass, by simp only [hl, Bool.false_eq_true, if_false]; rfl⟩
  | switch count ds hc hlen =>
    simp only [Reader.payload, hc, InstructionError.ofRead_bind_iff, Reader.jumpTable_iff]
    exact ⟨_, r', ⟨count, ds, hlen, rfl, hpass⟩, rfl⟩

end

/-! ### Instructions -/

/-- The bytes of an instruction: those of an opcode of the table, and those of its payload. -/
def Scanned.Spelled (metadata : μ) (locals : List TypeRef) (s : Scanned) (bytes : List UInt8) :
    Prop :=
  s.info.opcode.info? = some s.info ∧
    ∃ operand, bytes = s.info.opcode.bytes ++ operand ∧
      s.payload.Spelled metadata locals s.info (s.offset + bytes.length) operand

theorem Opcode.length_bytes_pos (op : Opcode) : 0 < op.bytes.length := by
  rw [length_bytes]
  exact op.size_bounds.1

theorem Scanned.Spelled.length_pos {s : Scanned} {bytes : List UInt8}
    (h : s.Spelled metadata locals bytes) : 0 < bytes.length := by
  obtain ⟨-, operand, rfl, -⟩ := h
  have := s.info.opcode.length_bytes_pos
  rw [List.length_append]
  omega

theorem Reader.position_mark (r : Reader) : r.mark.position = r.position := rfl

/-- An instruction is read exactly when bytes that spell it stand in front. -/
theorem Reader.instruction_iff {r r' : Reader} {s : Scanned} :
    r.instruction metadata locals = .ok (s, r') ↔
      s.offset = r.position ∧
        ∃ bytes, r.mark.Passes bytes r' ∧ s.Spelled metadata locals bytes := by
  simp only [Reader.instruction, bind_eq_ok_iff, InstructionError.ofRead_iff, pure_eq_ok_iff,
    Prod.exists, Reader.opcode_iff, Prod.mk.injEq]
  constructor
  · rintro ⟨info, r₁, ⟨hrow, hop⟩, p, r₂, hp, rfl, rfl⟩
    obtain ⟨operand, hpass, hspelled⟩ := Reader.spelled_of_payload hp
    have hall : r.mark.Passes (info.opcode.bytes ++ operand) r₂ :=
      Reader.passes_append_iff.2 ⟨r₁, hop, hpass⟩
    refine ⟨rfl, _, hall, hrow, operand, rfl, ?_⟩
    rwa [← r.position_mark, ← hall.position]
  · rintro ⟨hoffset, bytes, hpass, hrow, operand, rfl, hspelled⟩
    obtain ⟨r₁, hop, hoperand⟩ := Reader.passes_append_iff.1 hpass
    rw [hoffset, ← r.position_mark, ← hpass.position] at hspelled
    refine ⟨s.info, r₁, ⟨hrow, hop⟩, s.payload, r', Reader.payload_of_spelled hoperand hspelled, ?_⟩
    exact ⟨by rw [← hoffset], rfl⟩

/-! ### Whole codes -/

/-- Bytes that are instructions one behind the other, the first of them at a given position. -/
inductive Spelling (metadata : μ) (locals : List TypeRef) : Nat → List Scanned → List UInt8 → Prop
  | nil (position : Nat) : Spelling metadata locals position [] []
  | cons {position : Nat} {s : Scanned} {bytes : List UInt8} {rest : List Scanned}
      {code : List UInt8} :
      s.offset = position → s.Spelled metadata locals bytes →
      Spelling metadata locals (position + bytes.length) rest code →
      Spelling metadata locals position (s :: rest) (bytes ++ code)

theorem spelling_nil_iff {position : Nat} {ss : List Scanned} :
    Spelling metadata locals position ss [] ↔ ss = [] := by
  constructor
  · intro h
    generalize hcode : ([] : List UInt8) = code at h
    cases h with
    | nil => rfl
    | cons _ hs _ =>
      have := hs.length_pos
      simp [(List.append_eq_nil_iff.1 hcode.symm).1] at this
  · rintro rfl; exact .nil position

/-- Reading to the end gives just the instructions that the bytes spell, as long as the limit is not
below the count of bytes. -/
theorem Reader.instructions_iff {limit : Nat} {r : Reader} {ss : List Scanned}
    (hlimit : r.rest.length ≤ limit) :
    r.instructions metadata locals limit = (ss, none) ↔
      Spelling metadata locals r.position ss r.rest := by
  -- on the limit: each instruction has a byte at least, so the rest is within the smaller limit
  induction limit generalizing r ss with
  | zero =>
    rw [List.length_eq_zero_iff.1 (Nat.le_zero.1 hlimit), spelling_nil_iff]
    simp [Reader.instructions, eq_comm]
  | succ limit ih =>
    by_cases hempty : r.rest = []
    · rw [hempty, spelling_nil_iff]
      simp [Reader.instructions, Reader.isEmpty, hempty, eq_comm]
    · have hsome : r.isEmpty = false := by simpa [Reader.isEmpty] using hempty
      simp only [Reader.instructions, hsome, Bool.false_eq_true, if_false]
      constructor
      · intro h
        cases hi : r.instruction metadata locals with
        | error e => simp [hi] at h
        | ok found =>
          obtain ⟨first, r₁⟩ := found
          simp only [hi, Prod.mk.injEq] at h
          obtain ⟨rfl, hnone⟩ := h
          obtain ⟨hoffset, bytes, hpass, hspelled⟩ := Reader.instruction_iff.1 hi
          have hrest : r.rest = bytes ++ r₁.rest := hpass.rest
          have hlength := congrArg List.length hrest
          have hpos := hspelled.length_pos
          rw [List.length_append] at hlength
          rw [hrest]
          refine .cons hoffset hspelled ?_
          have hnext : r₁.position = r.position + bytes.length := hpass.position
          rw [← hnext, ← ih (by omega)]
          exact Prod.ext rfl hnone
      · intro h
        generalize hcode : r.rest = code at h
        cases h with
        | nil => exact absurd hcode hempty
        | @cons _ s bytes rest code hoffset hspelled htail =>
          have hpass : r.mark.Passes bytes (r.mark.skip bytes.length) :=
            Reader.passes_of_rest hcode
          have hpos := hspelled.length_pos
          have hlength := congrArg List.length hcode
          rw [List.length_append] at hlength
          have hrest : (r.mark.skip bytes.length).rest = code := Reader.rest_skip hcode
          rw [Reader.instruction_iff.2 ⟨hoffset, bytes, hpass, hspelled⟩]
          have htail' : (r.mark.skip bytes.length).instructions metadata locals limit =
              (rest, none) :=
            (ih (by rw [hrest]; omega)).2 (by rw [hrest]; exact htail)
          simp only [htail']

/-- **The scan decides the format.**  A body is scanned without error into a list of instructions
exactly when its code spells that list. -/
theorem Body.scan_eq_iff {body : Body} {ss : List Scanned} :
    body.scan metadata = (ss, none) ↔ Spelling metadata body.locals 0 ss body.code :=
  Reader.instructions_iff (r := Reader.ofBytes body.code) (Nat.le_refl _)

/-- A code spells one list only. -/
theorem Spelling.unique {ss ss' : List Scanned} {code : List UInt8}
    (h : Spelling metadata locals 0 ss code) (h' : Spelling metadata locals 0 ss' code) :
    ss = ss' := by
  have hread := (Reader.instructions_iff (r := Reader.ofBytes code) (Nat.le_refl _)).2 h
  have hread' := (Reader.instructions_iff (r := Reader.ofBytes code) (Nat.le_refl _)).2 h'
  exact (Prod.mk.inj (hread.symm.trans hread')).1

/-- Each instruction of a code is spelled by some of its bytes. -/
theorem Spelling.exists_spelled {position : Nat} {ss : List Scanned} {code : List UInt8}
    (h : Spelling metadata locals position ss code) :
    ∀ s ∈ ss, ∃ bytes, s.Spelled metadata locals bytes := by
  induction h with
  | nil => exact List.forall_mem_nil _
  | cons _ hspelled _ ih => exact List.forall_mem_cons.2 ⟨⟨_, hspelled⟩, ih⟩

/-! ### Offsets -/

/-- Every instruction begins within the code. -/
theorem Spelling.offset_bounds {position : Nat} {ss : List Scanned} {code : List UInt8}
    (h : Spelling metadata locals position ss code) :
    ∀ s ∈ ss, position ≤ s.offset ∧ s.offset < position + code.length := by
  induction h with
  | nil => exact List.forall_mem_nil _
  | cons hoffset hspelled _ ih =>
    have hpos := hspelled.length_pos
    intro s hs
    rw [List.length_append]
    rcases List.mem_cons.1 hs with rfl | hs
    · omega
    · have := ih s hs
      omega

/-- Instructions begin one after the other. -/
theorem Spelling.pairwise_offset {position : Nat} {ss : List Scanned} {code : List UInt8}
    (h : Spelling metadata locals position ss code) :
    ss.Pairwise fun a b => a.offset < b.offset := by
  induction h with
  | nil => exact .nil
  | cons hoffset hspelled htail ih =>
    have hpos := hspelled.length_pos
    refine .cons (fun s hs => ?_) ih
    have := (htail.offset_bounds s hs).1
    omega

end MethodWeave
