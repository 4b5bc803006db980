import MethodWeave.Blob.Command
import MethodWeave.Proofs.Blob.Placeholders
import MethodWeave.Proofs.Failing
import MethodWeave.Proofs.Instruction.Counting
import MethodWeave.Proofs.Instruction.Reencoding
/-!
Decoding and encoding a blob.

A blob is gone through twice: once by the scan, which passes over operands by their size, and once
by the reader, which takes them apart.  Both go on by the same bytes (`payload_of_scanOperand`), so
where the scan got through, the reader finds an opcode at each of its steps and all the bytes of
each operand, and it is refused at most for what an operand names.

Main result: `roundTrip_identical`, a blob that is decoded is encoded to the same bytes again.
-/

namespace MethodWeave

namespace Reader

/-! ### Words that are there -/

variable {r r' : Reader}

theorem word_of_take {n : Nat} {bytes : List UInt8} (h : r.take n = .ok (bytes, r')) :
    r.word n = .ok (Bytes.toNat bytes, r') := by
  simp [word, h, bind, Except.bind, pure, Except.pure]

theorem u8_of_take {bytes : List UInt8} (h : r.take 1 = .ok (bytes, r')) :
    r.u8 = .ok (UInt8.ofNat (Bytes.toNat bytes), r') := by
  simp [u8, word_of_take h, bind, Except.bind, pure, Except.pure]

theorem u16_of_take {bytes : List UInt8} (h : r.take 2 = .ok (bytes, r')) :
    r.u16 = .ok (UInt16.ofNat (Bytes.toNat bytes), r') := by
  simp [u16, word_of_take h, bind, Except.bind, pure, Except.pure]

theorem u32_of_take {bytes : List UInt8} (h : r.take 4 = .ok (bytes, r')) :
    r.u32 = .ok (UInt32.ofNat (Bytes.toNat bytes), r') := by
  simp [u32, word_of_take h, bind, Except.bind, pure, Except.pure]

theorem u64_of_take {bytes : List UInt8} (h : r.take 8 = .ok (bytes, r')) :
    r.u64 = .ok (UInt64.ofNat (Bytes.toNat bytes), r') := by
  simp [u64, word_of_take h, bind, Except.bind, pure, Except.pure]

/-- Bytes that are there are taken. -/
theorem take_of_le {n : Nat} (h : n ≤ r.rest.length) :
    r.take n = .ok (r.rest.take n, r.skip n) := by
  have hlength : (r.rest.take n).length = n := by rw [List.length_take]; omega
  simp only [take, hlength, if_true]

/-- Displacements that are there are read. -/
theorem exists_targets {count : Nat} (base : Int) (h : 4 * count ≤ r.rest.length) :
    ∃ ts, r.targets base count = .ok (ts, r.skip (4 * count)) := by
  induction count generalizing r with
  | zero => exact ⟨[], by simp [targets, skip]⟩
  | succ count ih =>
    have hfirst := u32_of_take (take_of_le (r := r) (n := 4) (by omega))
    obtain ⟨ts, hts⟩ := ih (r := r.skip 4) (by simp only [skip, List.length_drop]; omega)
    refine ⟨(base + (UInt32.ofNat (Bytes.toNat (r.rest.take 4))).toInt32.toInt) :: ts, ?_⟩
    simp only [targets, i32, hfirst, hts, bind, Except.bind, pure, Except.pure, skip_skip]
    rw [show 4 + 4 * count = 4 * (count + 1) by omega]

/-- What is left of a code, from a place in it on. -/
def StandsIn (code : List UInt8) (r : Reader) : Prop := r.rest = code.drop r.position

theorem StandsIn.skip {code : List UInt8} (h : r.StandsIn code) (n : Nat) :
    (r.skip n).StandsIn code := by
  show r.rest.drop n = code.drop (r.position + n)
  rw [h, List.drop_drop]

end Reader

namespace Blob

/-! ### Two walks over one code -/

/-- Why an instruction at an offset can be refused whose opcode and bytes are all there.  No
instruction is refused for the string that it loads. -/
inductive Refusal (info : Opcode.Info) (offset : Nat) : InstructionError → Prop
  | token (t : Token) : info.operand ≠ .string → Refusal info offset (.unresolvedToken offset t)
  | slot (index : UInt16) : Refusal info offset (.unknownLocal offset index)

/-- The reading goes on behind the operand, or is refused. -/
structure GoesOn {α : Type} (info : Opcode.Info) (offset : Nat) (r' : Reader)
    (x : Except InstructionError (α × Reader)) : Prop where
  next : ∀ {a r}, x = .ok (a, r) → r = r'
  refused : FailsOnly (Refusal info offset) x

variable {α β : Type} {info : Opcode.Info} {offset : Nat} {r r' : Reader}

theorem GoesOn.of_ok (a : α) : GoesOn info offset r' (.ok (a, r')) where
  next := by rintro _ _ ⟨⟩; rfl
  refused := .of_ok _

theorem GoesOn.of_error {e : InstructionError} (h : Refusal info offset e) :
    GoesOn info offset r' (.error e : Except InstructionError (α × Reader)) where
  next := nofun
  refused := .of_error h

/-- Whether a token resolves is asked once its bytes have been read. -/
theorem GoesOn.resolve (hclass : info.operand ≠ .string) (t : Token) (found : Option β)
    {f : β → Except InstructionError (α × Reader)} (hf : ∀ b, GoesOn info offset r' (f b)) :
    GoesOn info offset r' (resolveToken offset t found >>= f) := by
  cases found with
  | none => exact .of_error (.token t hclass)
  | some b => exact hf b

/-- An operand of fixed size has been passed over as a whole. -/
theorem take_of_scanOperand {m m' : BlobMetadata} {c : OperandClass} {n : Nat}
    (hsize : c.fixedSize? = some n) (hclass : c ≠ .string)
    (h : BlobMetadata.scanOperand m c r = .ok (m', r')) : ∃ bytes, r.take n = .ok (bytes, r') := by
  unfold BlobMetadata.scanOperand at h
  split at h
  · exact absurd rfl hclass
  · cases hsize
  · simp only [hsize, Option.getD_some, bind_eq_ok_iff, pure_eq_ok_iff, Prod.exists,
      Prod.mk.injEq] at h
    obtain ⟨bytes, r₁, hbytes, -, rfl⟩ := h
    exact ⟨bytes, hbytes⟩

/-- The index of a slot is read, or refused if it is that of a local which is not declared. -/
theorem GoesOn.slot (locals : List TypeRef) (index : UInt16) :
    GoesOn info offset r'
      (if info.has .local then
        match locals[index.toNat]? with
        | some type => pure (.local ⟨index, type⟩, r')
        | none => throw (.unknownLocal offset index)
      else pure (.argument index, r') : Except InstructionError (Payload Int × Reader)) := by
  split
  · cases locals[index.toNat]? with
    | none => exact .of_error (.slot index)
    | some type => exact .of_ok _
  · exact .of_ok _

/-- **The scan and the reader go on by the same bytes**, in metadata that have the strings which the
scan has filed. -/
theorem payload_of_scanOperand {m m' known : BlobMetadata}
    (h : BlobMetadata.scanOperand m info.operand r = .ok (m', r')) (hknown : known.Covers m')
    (locals : List TypeRef) : GoesOn info offset r' (r.payload known locals offset info) := by
  have hsized {n : Nat} (hsize : info.operand.fixedSize? = some n)
      (hclass : info.operand ≠ .string) := take_of_scanOperand hsize hclass h
  cases hc : info.operand with
  | none =>
    obtain ⟨bytes, hbytes⟩ := hsized (n := 0) (by rw [hc]; rfl) (by rw [hc]; decide)
    obtain ⟨hlength, hpass⟩ := Reader.take_iff.1 hbytes
    rw [List.length_eq_zero_iff.1 hlength, Reader.passes_nil_iff] at hpass
    rw [hpass]
    simp only [Reader.payload, hc]
    exact .of_ok _
  | shortBranch | shortInt =>
    obtain ⟨bytes, hbytes⟩ := hsized (n := 1) (by rw [hc]; rfl) (by rw [hc]; decide)
    simp only [Reader.payload, hc, Reader.i8, Reader.u8_of_take hbytes]
    exact .of_ok _
  | branch | int =>
    obtain ⟨bytes, hbytes⟩ := hsized (n := 4) (by rw [hc]; rfl) (by rw [hc]; decide)
    simp only [Reader.payload, hc, Reader.i32, Reader.u32_of_take hbytes]
    exact .of_ok _
  | shortReal =>
    obtain ⟨bytes, hbytes⟩ := hsized (n := 4) (by rw [hc]; rfl) (by rw [hc]; decide)
    simp only [Reader.payload, hc, Reader.u32_of_take hbytes]
    exact .of_ok _
  | int8 =>
    obtain ⟨bytes, hbytes⟩ := hsized (n := 8) (by rw [hc]; rfl) (by rw [hc]; decide)
    simp only [Reader.payload, hc, Reader.i64, Reader.u64_of_take hbytes]
    exact .of_ok _
  | real =>
    obtain ⟨bytes, hbytes⟩ := hsized (n := 8) (by rw [hc]; rfl) (by rw [hc]; decide)
    simp only [Reader.payload, hc, Reader.u64_of_take hbytes]
    exact .of_ok _
  | string =>
    -- the string has been filed under the token that stands here
    rw [hc] at h
    simp only [BlobMetadata.scanOperand, bind_eq_ok_iff, pure_eq_ok_iff, Prod.exists,
      Prod.mk.injEq] at h
    obtain ⟨v, r₁, hv, rfl, rfl⟩ := h
    obtain ⟨s, hs⟩ := hknown (t := ⟨v⟩) (KeyMap.get?_insert_self _ _ _)
    have hfound : Metadata.userString? known ⟨v⟩ = some s := hs
    have hread : r.payload known locals offset info = .ok (.string s, r₁) := by
      simp only [Reader.payload, hc, bind_eq_ok_iff, InstructionError.ofRead_iff, resolveToken_iff,
        Prod.exists, hv]
      exact ⟨v, r₁, rfl, s, hfound, rfl⟩
    rw [hread]
    exact .of_ok _
  | field | method | type | member =>
    have hmember : info.operand.isMember = true := by rw [hc]; rfl
    have hclass : info.operand ≠ .string := by rw [hc]; decide
    obtain ⟨bytes, hbytes⟩ := hsized (n := 4) (by rw [hc]; rfl) hclass
    rw [Reader.payload_of_isMember hmember, Reader.u32_of_take hbytes]
    refine .resolve hclass _ _ fun m => ?_
    split
    · exact .of_ok _
    · exact .of_error (.token _ hclass)
  | signature =>
    have hclass : info.operand ≠ .string := by rw [hc]; decide
    obtain ⟨bytes, hbytes⟩ := hsized (n := 4) (by rw [hc]; rfl) hclass
    simp only [Reader.payload, hc, Reader.u32_of_take hbytes]
    exact .resolve hclass _ _ fun s => .of_ok _
  | shortVar =>
    obtain ⟨bytes, hbytes⟩ := hsized (n := 1) (by rw [hc]; rfl) (by rw [hc]; decide)
    simp only [Reader.payload, hc, if_true, Reader.u8_of_take hbytes]
    exact .slot locals _
  | var =>
    obtain ⟨bytes, hbytes⟩ := hsized (n := 2) (by rw [hc]; rfl) (by rw [hc]; decide)
    simp only [Reader.payload, hc, reduceCtorEq, if_false, Reader.u16_of_take hbytes]
    exact .slot locals _
  | switch =>
    rw [hc] at h
    simp only [BlobMetadata.scanOperand, bind_eq_ok_iff, Prod.exists] at h
    obtain ⟨count, r₁, hcount, h⟩ := h
    split at h
    · cases h
    · next hroom =>
      cases h
      have hbytes : 4 * count.toNat ≤ r₁.rest.length := by
        simp only [Reader.remaining] at hroom
        omega
      obtain ⟨ts, hts⟩ := Reader.exists_targets
        (((r₁.position + 4 * count.toNat : Nat) : Int)) hbytes
      have htable : r.jumpTable = .ok (ts, r₁.skip (4 * count.toNat)) := by
        simp only [Reader.jumpTable, hcount, bind, Except.bind, if_neg hroom, hts]
      simp only [Reader.payload, hc, htable]
      exact .of_ok _

theorem exists_skip_of_scanOperand {m m' : BlobMetadata} {c : OperandClass}
    (h : BlobMetadata.scanOperand m c r = .ok (m', r')) : ∃ n, r' = r.skip n := by
  unfold BlobMetadata.scanOperand at h
  split at h
  · simp only [bind_eq_ok_iff, pure_eq_ok_iff, Prod.exists, Prod.mk.injEq, Reader.u32_iff] at h
    obtain ⟨v, r₁, hpass, -, rfl⟩ := h
    exact ⟨_, hpass.2⟩
  · simp only [bind_eq_ok_iff, Prod.exists, Reader.u32_iff] at h
    obtain ⟨count, r₁, hpass, h⟩ := h
    split at h
    · cases h
    · cases h
      exact ⟨_, by rw [hpass.2, Reader.skip_skip]⟩
  · simp only [bind_eq_ok_iff, pure_eq_ok_iff, Prod.exists, Prod.mk.injEq, Reader.take_iff] at h
    obtain ⟨bytes, r₁, ⟨-, hpass⟩, -, rfl⟩ := h
    exact ⟨_, hpass.2⟩

/-- A refusal at an opcode that stands in the code. -/
def RefusedIn (code : List UInt8) (e : InstructionError) : Prop :=
  ∃ info offset, Opcode.read offset (code.drop offset) = .ok info ∧ Refusal info offset e

/-- What has been scanned to its end is read to its end, or until an operand is refused. -/
theorem refused_of_scanFrom {code : List UInt8} {limit : Nat} {m known : BlobMetadata}
    (h : BlobMetadata.scanFrom limit m r = .ok known) (hcode : r.StandsIn code)
    (locals : List TypeRef) {ss : List Scanned} {e : InstructionError}
    (hread : r.instructions known locals limit = (ss, some e)) : RefusedIn code e := by
  induction limit generalizing m r ss with
  | zero => cases hread
  | succ limit ih =>
    unfold BlobMetadata.scanFrom at h
    unfold Reader.instructions at hread
    cases hempty : r.isEmpty with
    | true => simp only [hempty, if_true] at hread; cases hread
    | false =>
      simp only [hempty, Bool.false_eq_true, if_false, bind_eq_ok_iff, Prod.exists] at h hread
      obtain ⟨info, r₁, hopcode, m', r₂, hoperand, hrest⟩ := h
      -- the reader gets behind the operand where the scan did, or is refused at it
      have hgoesOn : GoesOn info r.position r₂ (r₁.payload known locals r.position info) :=
        payload_of_scanOperand hoperand (BlobMetadata.covers_scanFrom hrest) locals
      obtain ⟨hfound, hr₁⟩ : Opcode.read r.position r.rest = .ok info ∧
          r₁ = r.mark.skip info.opcode.size := by
        simp only [Reader.opcode, bind_eq_ok_iff, pure_eq_ok_iff, Prod.mk.injEq] at hopcode
        obtain ⟨info', hfound, rfl, hr₁⟩ := hopcode
        exact ⟨hfound, hr₁.symm⟩
      have hstart : InstructionError.ofRead r.opcode = .ok (info, r₁) :=
        InstructionError.ofRead_iff.2 hopcode
      cases hpayload : r₁.payload known locals r.position info with
      | error e' =>
        have hfirst : r.instruction known locals = .error e' := by
          simp only [Reader.instruction, hstart, hpayload, bind, Except.bind]
        rw [hfirst] at hread
        cases hread
        rw [hcode] at hfound
        exact ⟨info, r.position, hfound, hgoesOn.refused _ hpayload⟩
      | ok found =>
        obtain ⟨payload, r₃⟩ := found
        obtain rfl := hgoesOn.next hpayload
        have hfirst : r.instruction known locals = .ok (⟨r.position, info, payload⟩, r₃) := by
          simp only [Reader.instruction, hstart, hpayload, bind, Except.bind, pure, Except.pure]
        rw [hfirst] at hread
        simp only at hread
        generalize htail : r₃.instructions known locals limit = tail at hread
        obtain ⟨rest, e?⟩ := tail
        cases hread
        obtain ⟨n, rfl⟩ := exists_skip_of_scanOperand hoperand
        refine ih hrest ?_ htail
        rw [hr₁]
        exact Reader.StandsIn.skip (Reader.StandsIn.skip (r := r.mark) hcode _) n

/-- Why a scanned blob can be refused: for what an operand names, or for a jump or a region boundary
that is not the beginning of an instruction. -/
def RefusedAt (code : List UInt8) (e : InstructionError) : Prop :=
  RefusedIn code e ∨ (∃ t, e = .invalidBranchTarget t) ∨ ∃ k, e = .invalidRegion k

theorem failsOnly_labelled (code : List UInt8) (s : Scanned) (labels : PositionLabels) :
    FailsOnly (RefusedAt code) (s.labelled.run labels).1 := by
  have htarget (t : Int) (labels : PositionLabels) :
      FailsOnly (RefusedAt code) ((PositionLabels.target t).run labels).1 := by
    unfold PositionLabels.target
    split
    · exact .of_ok _
    · exact .of_error (Or.inr (Or.inl ⟨t, rfl⟩))
  exact .run_bind (.run_mapTargets htarget _) (fun _ => .run_pure _) labels

/-- A scanned blob is decoded, or refused for one of these reasons. -/
theorem failsOnly_decode {known : BlobMetadata} {body : Body}
    (h : BlobMetadata.scan body.code = .ok known) (supply : LabelSupply) :
    FailsOnly (RefusedAt body.code) (body.decode known supply).1 := by
  have hrefused {ss : List Scanned} {e : InstructionError}
      (hscan : body.scan known = (ss, some e)) : RefusedIn body.code e :=
    refused_of_scanFrom (r := Reader.ofBytes body.code) h rfl body.locals hscan
  unfold Body.decode Body.instructions
  generalize hscan : body.scan known = scanned at hrefused
  obtain ⟨ss, e?⟩ := scanned
  refine .run_bind (.run_mapM (failsOnly_labelled body.code) ss) (fun is labels => ?_) _
  cases e? with
  | some e => exact .of_error (Or.inl (hrefused rfl))
  | none =>
    refine .run_bind (fun labels => .of_ok labels) (fun labels _ => ?_) labels
    cases hattached : firstUnattached? (ss.map (·.offset)) labels.labels with
    | some position =>
      simp only [hattached]
      exact .of_error (Or.inr (Or.inl ⟨_, rfl⟩))
    | none =>
      simp only [hattached]
      split
      · exact .of_error (Or.inr (Or.inr ⟨_, rfl⟩))
      · exact .of_ok _

/-! ### The command -/

/-- The code that a decoded blob is encoded to is the blob. -/
theorem reencoded_of_decoded {code : List UInt8} {locals : Nat} {known : BlobMetadata}
    {is : List Instruction} (h : decoded code locals = .ok (known, is)) :
    reencoded known (bodyOf code locals).locals is = .ok code := by
  simp only [decoded, bind_eq_ok_iff, mapError_eq_ok_iff, pure_eq_ok_iff, Prod.mk.injEq] at h
  obtain ⟨_, hscan, _, hread, rfl, rfl⟩ := h
  -- a blob has no exception table
  obtain ⟨stream, g, hlower, hencode⟩ :=
    encode_of_coherent (BlobMetadata.coherent_scan hscan) rfl (Prod.ext hread rfl)
  simp only [reencoded, hlower, hencode, Except.mapError, bind, Except.bind, pure, Except.pure]
  rfl

/-- **A blob that is decoded is encoded to the same bytes.**  Once the scan has got through a blob,
the reader does not miss a byte or an opcode, nor a string that the code loads; if it reads the
blob, the instructions are lowered and encoded without failure to the body that was read.  On the
way no position and no label has a number of more than 32 bits, if the supply of labels has one left
for each byte.  So the command reports the blob as identical whenever it is decoded, and as a
failure to decode otherwise. -/
theorem roundTrip_identical (code : List UInt8) (locals : Nat) :
    (∀ known, BlobMetadata.scan code = .ok known → ∀ supply,
      (∀ e labels, (bodyOf code locals).decode known supply = (.error e, labels) →
        (∀ cause, e ≠ .read cause) ∧
        ∀ offset token, e = .unresolvedToken offset token →
          ∃ info, Opcode.read offset (code.drop offset) = .ok info ∧ info.operand ≠ .string) ∧
      ∀ is labels, (bodyOf code locals).decode known supply = (.ok is, labels) →
        ∃ stream g, Instruction.lowerWith (.withLocals (bodyOf code locals).locals) is =
            (.ok stream, g) ∧ g.encode stream known = (.ok (bodyOf code locals), known) ∧
          (supply.next + code.length < 0x100000000 → (∀ i ∈ is, i.FitsWords) ∧
            (∀ t ∈ labelsOf stream, t.number < 0x100000000) ∧
            codeSize (settle stream) < 0x100000000)) ∧
    roundTrip code locals =
      match decoded code locals with
      | .error e => .failure e
      | .ok (_, is) =>
        { out := s!"identical ({code.length} bytes, {is.length} instructions)\n" } := by
  refine ⟨fun known hscan supply => ⟨fun e labels hread => ?_, fun is labels hread => ?_⟩, ?_⟩
  · -- the scan got through, so what is left to refuse is an operand, a jump or a region
    have hrefused : RefusedAt code e :=
      failsOnly_decode hscan supply e (congrArg Prod.fst hread)
    obtain ⟨info, offset, hfound, hrefusal⟩ | ⟨t, rfl⟩ | ⟨k, rfl⟩ := hrefused
    · cases hrefusal with
      | token t hclass =>
        refine ⟨nofun, ?_⟩
        rintro _ _ ⟨⟩
        exact ⟨info, hfound, hclass⟩
      | slot index => exact ⟨nofun, nofun⟩
    · exact ⟨nofun, nofun⟩
    · exact ⟨nofun, nofun⟩
  · obtain ⟨stream, g, hlower, hencode⟩ :=
      encode_of_coherent (BlobMetadata.coherent_scan hscan) rfl hread
    refine ⟨stream, g, hlower, hencode, fun hroom => ?_⟩
    have hcode : (bodyOf code locals).code.length < 0x100000000 :=
      Nat.lt_of_le_of_lt (Nat.le_add_left _ _) hroom
    refine ⟨fitsWords_of_decode hread hroom, fun t ht => ?_, ?_⟩
    · exact Nat.lt_trans (Instruction.number_lt_of_decode hread hlower t ht) hcode
    · rw [codeSize_of_encode hencode]
      exact hcode
  · unfold roundTrip
    cases hdecoded : decoded code locals with
    | error e => rfl
    | ok found =>
      obtain ⟨known, is⟩ := found
      simp only [reencoded_of_decoded hdecoded, if_true]

/-- A blob that loads a string under a token outside the heap of strings, and jumps back. -/
def loopBlob : List UInt8 := [0x72, 0x2a, 0x00, 0x00, 0x07, 0x26, 0x2b, 0xf8]

/-- A blob that calls what is no method. -/
def fieldCallBlob : List UInt8 := [0x28, 0x01, 0x00, 0x00, 0x04]

/-- The loop is reported as identical; the call is refused for its token, and loads no string. -/
theorem roundTrip_identical_loopBlob :
    (∃ known is labels, BlobMetadata.scan loopBlob = .ok known ∧
      (bodyOf loopBlob 0).decode known {} = (.ok is, labels) ∧
      (∃ stream g, Instruction.lowerWith (.withLocals []) is = (.ok stream, g) ∧
        g.encode stream known = (.ok (bodyOf loopBlob 0), known) ∧ ∀ i ∈ is, i.FitsWords) ∧
      roundTrip loopBlob 0 = { out := "identical (8 bytes, 3 instructions)\n" }) ∧
    ∃ known labels, BlobMetadata.scan fieldCallBlob = .ok known ∧
      (bodyOf fieldCallBlob 0).decode known {} =
        (.error (.unresolvedToken 0 ⟨0x4000001⟩), labels) ∧
      ∃ info, Opcode.read 0 fieldCallBlob = .ok info ∧ info.operand ≠ .string := by
  obtain ⟨known, is, labels, hscan, hread, hlength⟩ : ∃ known is labels,
      BlobMetadata.scan loopBlob = .ok known ∧
        (bodyOf loopBlob 0).decode known {} = (.ok is, labels) ∧ is.length = 3 :=
    ⟨_, _, _, rfl, rfl, rfl⟩
  obtain ⟨known', labels', hscan', hread'⟩ : ∃ known labels,
      BlobMetadata.scan fieldCallBlob = .ok known ∧
        (bodyOf fieldCallBlob 0).decode known {} =
          (.error (.unresolvedToken 0 ⟨0x4000001⟩), labels) := ⟨_, _, rfl, rfl⟩
  obtain ⟨hloop, hreport⟩ := roundTrip_identical loopBlob 0
  obtain ⟨hcall, -⟩ := roundTrip_identical fieldCallBlob 0
  obtain ⟨stream, g, hlower, hencode, hfits⟩ := (hloop known hscan {}).2 is labels hread
  refine ⟨⟨known, is, labels, hscan, hread,
      ⟨stream, g, hlower, hencode, (hfits (by decide)).1⟩, ?_⟩,
    known', labels', hscan', hread', ((hcall known' hscan' {}).1 _ _ hread').2 _ _ rfl⟩
  have hdecoded : decoded loopBlob 0 = .ok (known, is) := by
    simp only [decoded, hscan, hread, Except.mapError, bind, Except.bind, pure, Except.pure]
  rw [hreport, hdecoded]
  simp only [hlength]
  rfl

end Blob

end MethodWeave
