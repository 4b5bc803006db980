import MethodWeave.Proofs.Code.Related
import MethodWeave.Proofs.Code.Spelling
import MethodWeave.Proofs.Metadata
import MethodWeave.Proofs.Native.Layout
/-!
The bytes of an operand.

What the operand of a placed instruction is written as is a relation with one case for each class
(`Placed.WritesOperand`), and that is what writing does with an operand that suits the form of its
instruction (`writesOperand_of_operandBytes`, `WritesOperand.operandBytes`).

Main results: the bytes that are written spell the operand (`spelled_of_operandBytes`), and bytes
that spell it are those that are written (`operandBytes_of_spelled`).
-/

namespace MethodWeave

/-! ### Classes of operands -/

/-- Bytes of an operand of the class; what has no fixed size is a jump table with that many
targets. -/
def OperandClass.size (c : OperandClass) (targetCount : Nat) : Nat :=
  c.fixedSize?.getD (4 + 4 * targetCount)

/-- Every member is written as its token. -/
theorem OperandClass.size_of_isMember {c : OperandClass} (h : c.isMember = true)
    (targetCount : Nat) : c.size targetCount = 4 := by
  cases c <;> first | rfl | cases h

theorem NativeInstruction.sizeAs_eq {n : NativeInstruction} {form : Opcode} {info : Opcode.Info}
    (hinfo : form.info? = some info) :
    n.sizeAs form = form.size + info.operand.size n.operand.targets.length := by
  rw [sizeAs, Opcode.operandClass?_of_info? hinfo, Option.bind_some, OperandClass.size]
  cases info.operand.fixedSize? <;> rfl

/-! ### The bytes of an operand -/

/-- The position `t` is where the label lies. -/
def LiesAt (bound : List (NativeLabel × Nat)) (l : NativeLabel) (t : Int) : Prop :=
  ∃ k, bound.lookup l = some k ∧ t = (k : Int)

namespace Placed

/-- The position `t` is where the displacement of the label leads to, if 32 bits can hold it. -/
def Reaches (p : Placed) (bound : List (NativeLabel × Nat)) (l : NativeLabel) (t : Int) : Prop :=
  ∃ d, p.displacement? bound l = some d ∧
    (-0x80000000 ≤ d → d < 0x80000000 → t = (p.stop : Int) + d)

/-- The bytes that an operand is written as, for an opcode with the given row: a label becomes its
displacement, and a string becomes the token. -/
inductive WritesOperand (p : Placed) (bound : List (NativeLabel × Nat)) (localCount : Nat)
    (token : Token) (info : Opcode.Info) : Payload NativeLabel → List UInt8 → Prop
  | none : info.operand = .none → WritesOperand p bound localCount token info .none []
  | shortBranch {l : NativeLabel} {d : Int} : info.operand = .shortBranch →
      p.displacement? bound l = some d →
      WritesOperand p bound localCount token info (.label l) [(Int8.ofInt d).toUInt8]
  | branch {l : NativeLabel} {d : Int} : info.operand = .branch →
      p.displacement? bound l = some d →
      WritesOperand p bound localCount token info (.label l) (displacementBytes d)
  | switch {ls : List NativeLabel} {ds : List Int} : info.operand = .switch →
      List.Forall₂ (fun l d => p.displacement? bound l = some d) ls ds →
      WritesOperand p bound localCount token info (.labels ls)
        (Bytes.ofNat 4 ls.length ++ ds.flatMap displacementBytes)
  | shortInt (v : Int32) : info.operand = .shortInt → -128 ≤ v.toInt ∧ v.toInt ≤ 127 →
      WritesOperand p bound localCount token info (.int32 v) [v.toInt8.toUInt8]
  | int (v : Int32) : info.operand = .int →
      WritesOperand p bound localCount token info (.int32 v) (Bytes.ofUInt32 v.toUInt32)
  | int8 (v : Int64) : info.operand = .int8 →
      WritesOperand p bound localCount token info (.int64 v) (Bytes.ofUInt64 v.toUInt64)
  | shortReal (v : Binary32) : info.operand = .shortReal →
      WritesOperand p bound localCount token info (.float32 v) (Bytes.ofUInt32 v.bits)
  | real (v : Binary64) : info.operand = .real →
      WritesOperand p bound localCount token info (.float64 v) (Bytes.ofUInt64 v.bits)
  | string (s : String) : info.operand = .string →
      WritesOperand p bound localCount token info (.string s) (Bytes.ofUInt32 token.value)
  | member (m : Member) : info.operand.isMember = true →
      info.suits (.member m : Payload Int) = true →
      WritesOperand p bound localCount token info (.member m) (Bytes.ofUInt32 m.token.value)
  | signature (s : Signature) : info.operand = .signature →
      WritesOperand p bound localCount token info (.signature s) (Bytes.ofUInt32 s.token.value)
  | shortLocal (l : Local) : info.operand = .shortVar → info.has .local = true →
      l.index.toNat < localCount → l.index.toNat < 256 →
      WritesOperand p bound localCount token info (.local l) [l.index.toUInt8]
  | local (l : Local) : info.operand = .var → info.has .local = true →
      l.index.toNat < localCount →
      WritesOperand p bound localCount token info (.local l) (Bytes.ofUInt16 l.index)
  | shortArgument (i : UInt16) : info.operand = .shortVar → info.has .local = false →
      i.toNat < 256 → WritesOperand p bound localCount token info (.argument i) [i.toUInt8]
  | argument (i : UInt16) : info.operand = .var → info.has .local = false →
      WritesOperand p bound localCount token info (.argument i) (Bytes.ofUInt16 i)

end Placed

/-- The index of a slot is written in the width of its class, if it fits. -/
theorem varBytes_eq_ok_iff {index : Nat} {c : OperandClass} {slot : UInt16} {bytes : List UInt8}
    (hc : c = .shortVar ∨ c = .var) :
    varBytes index c slot = .ok bytes ↔
      c = .shortVar ∧ slot.toNat < 256 ∧ bytes = [slot.toUInt8] ∨
        c = .var ∧ bytes = Bytes.ofUInt16 slot := by
  rcases hc with rfl | rfl
  · by_cases hslot : slot.toNat < 256 <;> simp [varBytes, hslot, eq_comm]
  · simp [varBytes, eq_comm]

namespace Placed

variable {p : Placed} {bound : List (NativeLabel × Nat)} {info : Opcode.Info}
  {index localCount : Nat} {token : Token} {bytes : List UInt8}

/-- How far a jump reaches to a label, if the label marks something. -/
def reach (p : Placed) (index : Nat) (bound : List (NativeLabel × Nat)) (l : NativeLabel) :
    Except EncodeError Int :=
  match p.displacement? bound l with
  | some d => .ok d
  | none => .error (.unboundLabel index l)

theorem reach_eq_ok_iff {l : NativeLabel} {d : Int} :
    p.reach index bound l = .ok d ↔ p.displacement? bound l = some d := by
  unfold reach
  cases p.displacement? bound l <;> simp

/-- What is written for an operand that suits the form of its instruction. -/
theorem writesOperand_of_operandBytes (hrow : p.form.info? = some info)
    (hsuits : info.suits p.insn.operand = true)
    (h : p.operandBytes index bound localCount token = .ok bytes) :
    p.WritesOperand bound localCount token info p.insn.operand bytes := by
  have hclass := Opcode.operandClass?_of_info? hrow
  -- in each case the class is one that the payload suits, and this picks what is written
  cases hop : p.insn.operand with
  | none =>
    rw [hop, Opcode.Info.suits_none_iff] at hsuits
    simp only [operandBytes, hclass, hop, hsuits] at h
    cases h
    exact .none hsuits
  | label l =>
    rw [hop, Opcode.Info.suits_label_iff] at hsuits
    rcases hsuits with hc | hc <;>
      simp only [operandBytes, hclass, hop, hc, bind_eq_ok_iff, pure_eq_ok_iff] at h <;>
      obtain ⟨d, hd, rfl⟩ := h
    · exact .shortBranch hc (reach_eq_ok_iff.1 hd)
    · exact .branch hc (reach_eq_ok_iff.1 hd)
  | labels ls =>
    rw [hop, Opcode.Info.suits_labels_iff] at hsuits
    simp only [operandBytes, hclass, hop, hsuits, bind_eq_ok_iff, mapM_eq_ok_iff,
      pure_eq_ok_iff] at h
    obtain ⟨ds, hds, rfl⟩ := h
    exact .switch hsuits (hds.imp fun l d hd => reach_eq_ok_iff.1 hd)
  | int32 v =>
    rw [hop, Opcode.Info.suits_int32_iff] at hsuits
    rcases hsuits with hc | hc <;> simp only [operandBytes, hclass, hop, hc] at h
    · split at h
      · next hv => cases h; exact .shortInt v hc hv
      · cases h
    · cases h
      exact .int v hc
  | int64 v =>
    rw [hop, Opcode.Info.suits_int64_iff] at hsuits
    simp only [operandBytes, hclass, hop, hsuits] at h
    cases h
    exact .int8 v hsuits
  | float32 v =>
    rw [hop, Opcode.Info.suits_float32_iff] at hsuits
    simp only [operandBytes, hclass, hop, hsuits] at h
    cases h
    exact .shortReal v hsuits
  | float64 v =>
    rw [hop, Opcode.Info.suits_float64_iff] at hsuits
    simp only [operandBytes, hclass, hop, hsuits] at h
    cases h
    exact .real v hsuits
  | string s =>
    rw [hop, Opcode.Info.suits_string_iff] at hsuits
    simp only [operandBytes, hclass, hop, hsuits] at h
    cases h
    exact .string s hsuits
  | member m =>
    rw [hop] at hsuits
    have hc := Opcode.Info.isMember_of_suits hsuits
    obtain rfl : bytes = Bytes.ofUInt32 m.token.value := by
      simp only [operandBytes, hclass, hop] at h
      cases ho : info.operand <;> simp [ho, OperandClass.isMember] at hc <;> cases h <;> rfl
    exact .member m hc (((Payload.Related.member (R := LiesAt bound) m).suits info).symm.trans hsuits)
  | signature s =>
    rw [hop, Opcode.Info.suits_signature_iff] at hsuits
    simp only [operandBytes, hclass, hop, hsuits] at h
    cases h
    exact .signature s hsuits
  | «local» l =>
    rw [hop, Opcode.Info.suits_local_iff] at hsuits
    obtain ⟨hc, hl⟩ := hsuits
    have hslot : l.index.toNat < localCount ∧ varBytes index info.operand l.index = .ok bytes := by
      rcases hc with hc | hc <;> simp only [operandBytes, hclass, hop, hc] at h ⊢ <;> split at h <;>
        first | exact ⟨‹_›, h⟩ | cases h
    obtain ⟨hlt, hslot⟩ := hslot
    obtain ⟨hc, hsmall, rfl⟩ | ⟨hc, rfl⟩ := (varBytes_eq_ok_iff hc).1 hslot
    · exact .shortLocal l hc hl hlt hsmall
    · exact .local l hc hl hlt
  | argument i =>
    rw [hop, Opcode.Info.suits_argument_iff] at hsuits
    obtain ⟨hc, ha⟩ := hsuits
    -- an opcode that takes a slot takes an argument or a local, not either
    have hl : info.has .local = false := by
      have := Opcode.has_argument hrow hc
      rw [ha] at this
      simpa using this
    have hslot : varBytes index info.operand i = .ok bytes := by
      rcases hc with hc | hc <;> simp only [operandBytes, hclass, hop, hc] at h ⊢ <;> exact h
    obtain ⟨hc, hsmall, rfl⟩ | ⟨hc, rfl⟩ := (varBytes_eq_ok_iff hc).1 hslot
    · exact .shortArgument i hc hl hsmall
    · exact .argument i hc hl

/-- What an operand may be written as, it is written as. -/
theorem WritesOperand.operandBytes (hrow : p.form.info? = some info)
    (h : p.WritesOperand bound localCount token info p.insn.operand bytes) (index : Nat) :
    p.operandBytes index bound localCount token = .ok bytes := by
  have hclass := Opcode.operandClass?_of_info? hrow
  -- the class that the case names picks the branch of the writer
  generalize hop : p.insn.operand = o at h
  simp only [Placed.operandBytes, hclass, hop]
  cases h with
  | shortBranch hc hd | branch hc hd =>
    simp only [hc, bind_eq_ok_iff, pure_eq_ok_iff]
    exact ⟨_, reach_eq_ok_iff.2 hd, rfl⟩
  | switch hc hds =>
    simp only [hc, bind_eq_ok_iff, mapM_eq_ok_iff, pure_eq_ok_iff]
    exact ⟨_, hds.imp fun l d hd => reach_eq_ok_iff.2 hd, rfl⟩
  | shortInt v hc hv => simp only [hc, hv, and_self, if_true]
  | member m hc _ => cases ho : info.operand <;> simp [ho, OperandClass.isMember] at hc <;> rfl
  | shortLocal l hc _ hlt hsmall =>
    simp only [hc, hlt, if_true]
    exact (varBytes_eq_ok_iff (Or.inl rfl)).2 (Or.inl ⟨rfl, hsmall, rfl⟩)
  | «local» l hc _ hlt =>
    simp only [hc, hlt, if_true]
    exact (varBytes_eq_ok_iff (Or.inr rfl)).2 (Or.inr ⟨rfl, rfl⟩)
  | shortArgument i hc _ hsmall =>
    simp only [hc]
    exact (varBytes_eq_ok_iff (Or.inl rfl)).2 (Or.inl ⟨rfl, hsmall, rfl⟩)
  | argument i hc _ =>
    simp only [hc]
    exact (varBytes_eq_ok_iff (Or.inr rfl)).2 (Or.inr ⟨rfl, rfl⟩)
  | _ => simp only [*]

/-- The bytes of an operand are as many as its class says. -/
theorem WritesOperand.length_eq {o : Payload NativeLabel}
    (h : p.WritesOperand bound localCount token info o bytes) :
    bytes.length = info.operand.size o.targets.length := by
  cases h with
  | switch hc hds =>
    have hwords (ds : List Int) : (ds.flatMap displacementBytes).length = 4 * ds.length := by
      simp [displacementBytes, List.length_flatMap, Nat.mul_comm]
    rw [hc, List.length_append, Bytes.length_ofNat, hwords, ← hds.length_eq]
    rfl
  | member m hc _ =>
    rw [OperandClass.size_of_isMember hc]
    rfl
  | _ => simp only [*]; rfl

/-- The bytes that are written for an operand are as many as the layout leaves for it. -/
theorem length_of_operandBytes (hrow : p.form.info? = some info)
    (hsuits : info.suits p.insn.operand = true)
    (h : p.operandBytes index bound localCount token = .ok bytes) :
    p.insn.sizeAs p.form = p.form.size + bytes.length := by
  rw [NativeInstruction.sizeAs_eq hrow, (writesOperand_of_operandBytes hrow hsuits h).length_eq]

end Placed

/-! ### From operands to bytes and back -/

section

variable {μ : Type} [Metadata μ]

/-- What a payload refers to is there under its own name: members and signatures under their tokens,
locals in their slots. -/
def Payload.Registered {τ : Type} (metadata : μ) (locals : List TypeRef) : Payload τ → Prop
  | .member m => Metadata.member? metadata m.token = some m
  | .signature s => Metadata.signature? metadata s.token = some s
  | .local l => locals[l.index.toNat]? = some l.type
  | _ => True

variable {metadata : μ} {locals : List TypeRef}

/-- What is registered does not depend on the targets. -/
theorem Payload.Related.registered {τ υ : Type} {R : τ → υ → Prop} {p : Payload τ} {q : Payload υ}
    (h : Related R p q) : p.Registered metadata locals ↔ q.Registered metadata locals := by
  cases h <;> exact Iff.rfl

/-- A slot that fits a byte is read back from it. -/
theorem toUInt16_toUInt8_of_lt {slot : UInt16} (h : slot.toNat < 256) :
    slot.toUInt8.toUInt16 = slot := by
  refine UInt16.toNat_inj.1 ?_
  rw [UInt8.toNat_toUInt16, UInt16.toNat_toUInt8]
  omega

/-- So is a number that fits a signed byte. -/
theorem toInt32_toInt8_of_le {v : Int32} (h : -128 ≤ v.toInt ∧ v.toInt ≤ 127) :
    v.toInt8.toInt32 = v := by
  refine Int32.toInt.inj ?_
  rw [Int8.toInt_toInt32, Int32.toInt_toInt8]
  exact Int.bmod_eq_of_le (by omega) (by omega)

namespace Placed

variable {p : Placed} {bound : List (NativeLabel × Nat)} {info : Opcode.Info} {index : Nat}
  {token : Token} {bytes : List UInt8} {o : Payload NativeLabel}

/-! ### Jumps -/

/-- A label has a displacement exactly if it has an offset. -/
theorem displacement?_eq_some {l : NativeLabel} {d : Int} :
    p.displacement? bound l = some d ↔ ∃ k, bound.lookup l = some k ∧ d = (k : Int) - p.stop := by
  unfold displacement?
  cases bound.lookup l with
  | none => simp
  | some k => simp [eq_comm]

/-- A short branch that does not stray has its target within its reach. -/
theorem short_of_not_strays {l : NativeLabel} {d : Int} (hop : p.insn.operand = .label l)
    (hrow : p.form.info? = some info) (hc : info.operand = .shortBranch)
    (hstrays : p.strays bound = false) (hd : p.displacement? bound l = some d) :
    -128 ≤ d ∧ d ≤ 127 := by
  have hlong := Opcode.isSome_longForm? hrow hc
  simp only [strays, hop, hlong, hd, Bool.true_and, Option.map_some, Option.getD_some,
    Bool.not_eq_false', inShortRange, Bool.and_eq_true, decide_eq_true_eq] at hstrays
  exact hstrays

/-- A table is written as its length and its displacements, as long as 32 bits hold the length. -/
theorem spelled_of_displacements (metadata : μ) (locals : List TypeRef) {ls : List NativeLabel}
    {ds : List Int} (hc : info.operand = .switch)
    (hds : List.Forall₂ (fun l d => p.displacement? bound l = some d) ls ds)
    (hsmall : (Bytes.ofNat 4 ls.length ++ ds.flatMap displacementBytes).length < 0x100000000) :
    ∃ ts, List.Forall₂ (p.Reaches bound) ls ts ∧
      (Payload.labels ts).Spelled metadata locals info p.stop
        (Bytes.ofNat 4 ls.length ++ ds.flatMap displacementBytes) := by
  have hbytes : ds.flatMap displacementBytes =
      (ds.map Int32.ofInt).flatMap fun d => Bytes.ofUInt32 d.toUInt32 := by
    rw [List.flatMap_map]; rfl
  rw [hbytes, List.length_append, length_flatMap_ofUInt32, List.length_map, ← hds.length_eq]
    at hsmall
  -- 32 bits hold the length, since each entry takes four bytes of the table
  have hcount : (UInt32.ofNat ls.length).toNat = ls.length :=
    UInt32.toNat_ofNat_of_lt' (by show _ < 2 ^ 32; omega)
  have hlength : (ds.map Int32.ofInt).length = (UInt32.ofNat ls.length).toNat := by
    rw [hcount, List.length_map, hds.length_eq]
  have hspelled : Payload.Spelled metadata locals info p.stop _ _ :=
    .switch (UInt32.ofNat ls.length) (ds.map Int32.ofInt) hc hlength
  rw [← hbytes, Bytes.ofUInt32, hcount, List.map_map] at hspelled
  refine ⟨_, List.forall₂_map_right_iff.2 (hds.imp fun l d hd => ?_), hspelled⟩
  refine ⟨d, hd, fun hlow hhigh => ?_⟩
  rw [Function.comp_apply, Int32.toInt_ofInt_of_le hlow hhigh]

/-! ### Operands -/

/-- A local is written by its index, and read with the type that its slot is declared with. -/
theorem WritesOperand.spelled_local {l : Local} {type : TypeRef}
    (h : p.WritesOperand bound locals.length token info (.local l) bytes) (metadata : μ)
    (hdeclared : locals[l.index.toNat]? = some type) :
    (Payload.local ⟨l.index, type⟩ : Payload Int).Spelled metadata locals info p.stop bytes := by
  cases h with
  | shortLocal _ hc hl _ hsmall =>
    have hback := toUInt16_toUInt8_of_lt hsmall
    have hspelled : Payload.Spelled metadata locals info p.stop _ _ :=
      .shortLocal l.index.toUInt8 type hc hl (by rw [hback]; exact hdeclared)
    rwa [hback] at hspelled
  | «local» _ hc hl _ => exact .local l.index type hc hl hdeclared

/-- **What is written for an operand spells it.** -/
theorem spelled_of_operandBytes (metadata : μ) (hrow : p.form.info? = some info)
    (h : p.operandBytes index bound locals.length token = .ok bytes)
    (hsuits : info.suits p.insn.operand = true) (hstrays : p.strays bound = false)
    (hregistered : p.insn.operand.Registered metadata locals)
    (hstring : ∀ s, p.insn.operand = .string s → Metadata.userString? metadata token = some s)
    (hsmall : bytes.length < 0x100000000) :
    ∃ q, Payload.Related (p.Reaches bound) p.insn.operand q ∧
      q.Spelled metadata locals info p.stop bytes := by
  -- one case for each way to write an operand; what is narrowed must fit to be read back
  have hwrites := writesOperand_of_operandBytes hrow hsuits h
  generalize hop : p.insn.operand = o at hwrites hregistered hstring
  cases hwrites with
  | none hc => exact ⟨_, .none, .none hc⟩
  | @shortBranch _ d hc hd =>
    have hshort := short_of_not_strays hop hrow hc hstrays hd
    have hback : (Int8.ofInt d).toInt = d := Int8.toInt_ofInt_of_le (by omega) (by omega)
    exact ⟨_, .label ⟨d, hd, fun _ _ => by rw [hback]⟩, .shortBranch (Int8.ofInt d) hc⟩
  | @branch _ d hc hd =>
    refine ⟨_, .label ⟨d, hd, fun hlow hhigh => ?_⟩, .branch (Int32.ofInt d) hc⟩
    rw [Int32.toInt_ofInt_of_le hlow hhigh]
  | switch hc hds =>
    obtain ⟨ts, hts, hspelled⟩ := spelled_of_displacements metadata locals hc hds hsmall
    exact ⟨_, .labels hts, hspelled⟩
  | shortInt v hc hv =>
    have hspelled : Payload.Spelled metadata locals info p.stop _ _ := .shortInt v.toInt8 hc
    rw [toInt32_toInt8_of_le hv] at hspelled
    exact ⟨_, .int32 v, hspelled⟩
  | int v hc => exact ⟨_, .int32 v, .int v hc⟩
  | int8 v hc => exact ⟨_, .int64 v, .int8 v hc⟩
  | shortReal v hc => exact ⟨_, .float32 v, .shortReal v hc⟩
  | real v hc => exact ⟨_, .float64 v, .real v hc⟩
  | string s hc => exact ⟨_, .string s, .string token s hc (hstring s rfl)⟩
  | member m hc hsuits => exact ⟨_, .member m, .member m.token m hc hregistered hsuits⟩
  | signature s hc => exact ⟨_, .signature s, .signature s.token s hc hregistered⟩
  | shortLocal l hc hl hlt hbyte =>
    have hwrites : p.WritesOperand bound locals.length token info _ _ :=
      .shortLocal l hc hl hlt hbyte
    exact ⟨_, .local l, hwrites.spelled_local metadata hregistered⟩
  | «local» l hc hl hlt => exact ⟨_, .local l, .local l.index l.type hc hl hregistered⟩
  | shortArgument i hc hl hbyte =>
    have hspelled : Payload.Spelled metadata locals info p.stop _ _ :=
      .shortArgument i.toUInt8 hc hl
    rw [toUInt16_toUInt8_of_lt hbyte] at hspelled
    exact ⟨_, .argument i, hspelled⟩
  | argument i hc hl => exact ⟨_, .argument i, .argument i hc hl⟩

theorem displacement?_of_liesAt {l : NativeLabel} {d : Int}
    (h : LiesAt bound l ((p.stop : Int) + d)) : p.displacement? bound l = some d := by
  obtain ⟨k, hk, hkd⟩ := h
  exact displacement?_eq_some.2 ⟨k, hk, by omega⟩

/-- **The bytes that spell an operand are what is written for it**, with the token that its string
has already. -/
theorem operandBytes_of_spelled (index : Nat) (hcoherent : Metadata.Coherent metadata)
    (hrow : p.form.info? = some info) {q : Payload Int}
    (hrelated : Payload.Related (LiesAt bound) p.insn.operand q)
    (h : q.Spelled metadata locals info p.stop bytes) :
    ∃ token, p.internString metadata = (token, metadata) ∧
      p.operandBytes index bound locals.length token = .ok bytes := by
  -- the relation is enough, and its cases are those of the spelling
  suffices hwrites : ∃ token, p.internString metadata = (token, metadata) ∧
      p.WritesOperand bound locals.length token info p.insn.operand bytes by
    obtain ⟨token, hintern, hwrites⟩ := hwrites
    exact ⟨token, hintern, hwrites.operandBytes hrow index⟩
  simp only [internString]
  generalize p.insn.operand = o at hrelated
  cases h with
  | none hc => cases hrelated; exact ⟨_, rfl, .none hc⟩
  | shortBranch d hc =>
    cases hrelated with
    | label hl =>
      have hwrites {t : Token} : p.WritesOperand bound locals.length t info _ _ :=
        .shortBranch hc (displacement?_of_liesAt hl)
      rw [Int8.ofInt_toInt] at hwrites
      exact ⟨_, rfl, hwrites⟩
  | branch d hc =>
    cases hrelated with
    | label hl =>
      have hwrites {t : Token} : p.WritesOperand bound locals.length t info _ _ :=
        .branch hc (displacement?_of_liesAt hl)
      rw [displacementBytes, Int32.ofInt_toInt] at hwrites
      exact ⟨_, rfl, hwrites⟩
  | shortInt v hc =>
    cases hrelated
    -- a byte that was widened fits a byte
    have hv : -128 ≤ v.toInt32.toInt ∧ v.toInt32.toInt ≤ 127 := by
      have := v.toInt_lt
      have := v.le_toInt
      rw [Int8.toInt_toInt32]
      omega
    have hwrites {t : Token} : p.WritesOperand bound locals.length t info _ _ :=
      .shortInt v.toInt32 hc hv
    rw [Int8.toInt8_toInt32] at hwrites
    exact ⟨_, rfl, hwrites⟩
  | int v hc => cases hrelated; exact ⟨_, rfl, .int v hc⟩
  | int8 v hc => cases hrelated; exact ⟨_, rfl, .int8 v hc⟩
  | shortReal v hc => cases hrelated; exact ⟨_, rfl, .shortReal v hc⟩
  | real v hc => cases hrelated; exact ⟨_, rfl, .real v hc⟩
  -- the metadata are coherent, so the string has this token and no row is added
  | string t s hc hs => cases hrelated; exact ⟨t, hcoherent.userString hs, .string s hc⟩
  | member t m hc hm hsuits =>
    cases hrelated
    obtain rfl := hcoherent.member hm
    exact ⟨_, rfl, .member m hc hsuits⟩
  | signature t s hc hs =>
    cases hrelated
    obtain rfl := hcoherent.signature hs
    exact ⟨_, rfl, .signature s hc⟩
  | shortLocal i type hc hl htype =>
    cases hrelated
    have hlt := (List.getElem?_eq_some_iff.1 htype).1
    have hwrites {t : Token} : p.WritesOperand bound locals.length t info _ _ :=
      .shortLocal ⟨i.toUInt16, type⟩ hc hl hlt (by rw [UInt8.toNat_toUInt16]; exact i.toNat_lt)
    rw [UInt8.toUInt8_toUInt16] at hwrites
    exact ⟨_, rfl, hwrites⟩
  | «local» i type hc hl htype =>
    cases hrelated
    exact ⟨_, rfl, .local ⟨i, type⟩ hc hl (List.getElem?_eq_some_iff.1 htype).1⟩
  | shortArgument i hc hl =>
    cases hrelated
    have hwrites {t : Token} : p.WritesOperand bound locals.length t info _ _ :=
      .shortArgument i.toUInt16 hc hl (by rw [UInt8.toNat_toUInt16]; exact i.toNat_lt)
    rw [UInt8.toUInt8_toUInt16] at hwrites
    exact ⟨_, rfl, hwrites⟩
  | argument i hc hl => cases hrelated; exact ⟨_, rfl, .argument i hc hl⟩
  | switch count ds hc hlen =>
    cases hrelated with
    | @labels ls _ hls =>
      have hlength : ls.length = count.toNat := by rw [hls.length_eq, List.length_map, hlen]
      rw [List.forall₂_map_right_iff] at hls
      have hwrites {t : Token} : p.WritesOperand bound locals.length t info _ _ :=
        .switch hc (List.forall₂_map_right_iff.2
          (hls.imp fun l (d : Int32) hl => displacement?_of_liesAt hl))
      rw [hlength, List.flatMap_map] at hwrites
      simp only [displacementBytes, Int32.ofInt_toInt] at hwrites
      exact ⟨_, rfl, hwrites⟩

end Placed

end

end MethodWeave
