import MethodWeave.Proofs.Code.Spelling
import MethodWeave.Proofs.Pass
/-!
What decoding makes of the instructions that a code spells.

Every position that is a jump target gets a label of its own, and the label marks the instruction
that begins there.  Main results: `readAs_of_decode`, instructions read from a body correspond to
the instructions that its code spells (`Instruction.ReadAs`); and `exists_decode`, a body is read if
its code spells instructions, all of whose targets are instructions, and no region marker is
misplaced.
-/

namespace MethodWeave

/-! ### Payloads that opcodes ask for -/

section

variable {μ : Type} [Metadata μ] {metadata : μ} {locals : List TypeRef} {info : Opcode.Info}

/-- A payload that is spelled suits the opcode. -/
theorem Payload.Spelled.suits {op : Opcode} (hrow : op.info? = some info) {stop : Nat}
    {q : Payload Int} {bytes : List UInt8} (h : q.Spelled metadata locals info stop bytes) :
    info.suits q = true := by
  cases h with
  | none hc => exact Opcode.Info.suits_none_iff.2 hc
  | shortBranch d hc => exact Opcode.Info.suits_label_iff.2 (Or.inl hc)
  | branch d hc => exact Opcode.Info.suits_label_iff.2 (Or.inr hc)
  | shortInt v hc => exact Opcode.Info.suits_int32_iff.2 (Or.inl hc)
  | int v hc => exact Opcode.Info.suits_int32_iff.2 (Or.inr hc)
  | int8 v hc => exact Opcode.Info.suits_int64_iff.2 hc
  | shortReal v hc => exact Opcode.Info.suits_float32_iff.2 hc
  | real v hc => exact Opcode.Info.suits_float64_iff.2 hc
  | string t s hc _ => exact Opcode.Info.suits_string_iff.2 hc
  | member t m _ _ hsuits => exact hsuits
  | signature t s hc _ => exact Opcode.Info.suits_signature_iff.2 hc
  | shortLocal i type hc hl _ => exact Opcode.Info.suits_local_iff.2 ⟨Or.inl hc, hl⟩
  | «local» i type hc hl _ => exact Opcode.Info.suits_local_iff.2 ⟨Or.inr hc, hl⟩
  | shortArgument i hc hl =>
    have ha := Opcode.has_argument hrow (Or.inl hc)
    exact Opcode.Info.suits_argument_iff.2 ⟨Or.inl hc, by rw [ha, hl]; rfl⟩
  | argument i hc hl =>
    have ha := Opcode.has_argument hrow (Or.inr hc)
    exact Opcode.Info.suits_argument_iff.2 ⟨Or.inr hc, by rw [ha, hl]; rfl⟩
  | switch count ds hc _ => exact Opcode.Info.suits_labels_iff.2 hc

/-- The empty operand of an opcode, with a payload that suits the opcode put into it. -/
def Operand.filled (info : Opcode.Info) (p : Payload Label) : Operand :=
  ((Operand.emptyFor info).store p).getD (Operand.emptyFor info)

/-- An empty operand takes whatever suits its opcode, except that an operand without contents takes
nothing. -/
theorem Operand.accepts_emptyFor {op : Opcode} (hrow : op.info? = some info) {τ : Type}
    {p : Payload τ} (h : info.suits p = true) :
    p = .none ∧ Operand.emptyFor info = .none ∨ (Operand.emptyFor info).accepts p = true := by
  cases p with
  | none =>
    rw [Opcode.Info.suits_none_iff] at h
    exact Or.inl ⟨rfl, by simp only [Operand.emptyFor, h]⟩
  | label l =>
    rcases Opcode.Info.suits_label_iff.1 h with hc | hc <;>
      exact Or.inr (by simp [Operand.emptyFor, Operand.accepts, hc])
  | labels ls =>
    exact Or.inr (by simp [Operand.emptyFor, Operand.accepts, Opcode.Info.suits_labels_iff.1 h])
  | int32 v =>
    rcases Opcode.Info.suits_int32_iff.1 h with hc | hc <;>
      exact Or.inr (by simp [Operand.emptyFor, Operand.accepts, hc])
  | int64 v =>
    exact Or.inr (by simp [Operand.emptyFor, Operand.accepts, Opcode.Info.suits_int64_iff.1 h])
  | float32 v =>
    exact Or.inr (by simp [Operand.emptyFor, Operand.accepts, Opcode.Info.suits_float32_iff.1 h])
  | float64 v =>
    exact Or.inr (by simp [Operand.emptyFor, Operand.accepts, Opcode.Info.suits_float64_iff.1 h])
  | string v =>
    exact Or.inr (by simp [Operand.emptyFor, Operand.accepts, Opcode.Info.suits_string_iff.1 h])
  | member m =>
    refine Or.inr ?_
    cases m <;> cases ho : info.operand <;>
      simp [Opcode.Info.suits, Operand.emptyFor, Operand.accepts, MemberKind.accepts, ho] at h ⊢
  | signature v =>
    exact Or.inr (by simp [Operand.emptyFor, Operand.accepts, Opcode.Info.suits_signature_iff.1 h])
  | «local» l =>
    obtain ⟨hc | hc, hl⟩ := Opcode.Info.suits_local_iff.1 h <;>
      exact Or.inr (by simp [Operand.emptyFor, Operand.accepts, hc, hl])
  | argument i =>
    obtain ⟨hc, ha⟩ := Opcode.Info.suits_argument_iff.1 h
    -- locals and arguments have one class of operand, and the table tells which of them is meant
    have hl : info.has .local = false := by
      have := Opcode.has_argument hrow hc
      rw [ha] at this
      simpa using this
    rcases hc with hc | hc <;>
      exact Or.inr (by simp [Operand.emptyFor, Operand.accepts, hc, hl])

/-- What is put into the empty operand of an opcode that it suits is what the operand holds. -/
theorem Operand.payload?_filled {op : Opcode} (hrow : op.info? = some info) {p : Payload Label}
    (h : info.suits p = true) : (Operand.filled info p).payload? = some p := by
  rcases Operand.accepts_emptyFor hrow h with ⟨rfl, hempty⟩ | haccepts
  · simp only [Operand.filled, hempty]
    rfl
  · rw [← Operand.isSome_store] at haccepts
    obtain ⟨stored, hstored⟩ := Option.isSome_iff_exists.1 haccepts
    rw [Operand.filled, hstored]
    exact Operand.payload?_of_store hstored

end

/-! ### Labels for positions -/

namespace PositionLabels

/-- The position has the label. -/
def Named (s : PositionLabels) (t : Int) (l : Label) : Prop :=
  0 ≤ t ∧ t < 0x100000000 ∧ s.labels.get? t.toNat = some l

/-- Labels of positions are free labels that the supply has handed out, each for one position. -/
structure Sound (s : PositionLabels) : Prop where
  handedOut : ∀ {k l}, s.labels.get? k = some l → l.fixed? = none ∧ l.id < s.supply.next
  injective : ∀ {k k' l}, s.labels.get? k = some l → s.labels.get? k' = some l → k = k'

/-- What reading keeps as it goes on, when all targets satisfy `P`. -/
structure Grows (P : Nat → Prop) (s s' : PositionLabels) : Prop where
  sound : s.Sound → s'.Sound
  labels : ∀ {k l}, s.labels.get? k = some l → s'.labels.get? k = some l
  positions : (∀ k l, s.labels.get? k = some l → P k) → ∀ k l, s'.labels.get? k = some l → P k

def growth (P : Nat → Prop) : Growth PositionLabels where
  le := Grows P
  refl _ := ⟨id, id, id⟩
  trans h h' := ⟨h'.sound ∘ h.sound, h'.labels ∘ h.labels, h'.positions ∘ h.positions⟩

/-- Asking for the label of a position. -/
theorem grows_label {P : Nat → Prop} {k : Nat} (hk : P k) (s : PositionLabels) :
    Grows P s (label k s).2 ∧ (label k s).2.labels.get? k = some (label k s).1 := by
  cases hget : s.labels.get? k with
  | some l =>
    simp only [label, hget]
    exact ⟨(growth P).refl s, trivial⟩
  | none =>
    simp only [label, hget, LabelSupply.free]
    refine ⟨⟨fun h => ⟨fun {k' l} hk' => ?_, fun {k₁ k₂ l} h₁ h₂ => ?_⟩,
      KeyMap.get?_insert_of_none hget, fun h k' l hk' => ?_⟩, KeyMap.get?_insert_self _ _ _⟩
    · refine KeyMap.forall_get?_insert (P := fun _ l => l.fixed? = none ∧ l.id < s.supply.next + 1)
        (fun hl => ?_) ⟨rfl, Nat.lt_succ_self _⟩ hk'
      exact ⟨(h.handedOut hl).1, Nat.lt_succ_of_lt (h.handedOut hl).2⟩
    · -- the label is new to the supply, so no position has it yet
      refine KeyMap.injective_insert h.injective (fun hl => ?_) h₁ h₂
      exact Nat.lt_irrefl _ (h.handedOut hl).2
    · exact KeyMap.forall_get?_insert (P := fun k _ => P k) (h _ _) hk hk'

theorem Named.keep {P : Nat → Prop} {s s' : PositionLabels} {t : Int} {l : Label}
    (hle : (growth P).le s s') (h : s.Named t l) : s'.Named t l :=
  ⟨h.1, h.2.1, hle.labels h.2.2⟩

theorem tryStep_target (P : Nat → Prop) : (growth P).TryStep (fun t => P t.toNat) Named target where
  keep := Named.keep
  run := by
    intro t s l s' ht hrun
    unfold target at hrun
    split at hrun
    · next hrange =>
      have hlabel := run_lift_eq_ok_iff.1 hrun
      have := grows_label ht s
      rw [hlabel] at this
      exact ⟨this.1, hrange.1, hrange.2, this.2⟩
    · cases hrun

theorem succeeds_target {t : Int} (h : 0 ≤ t ∧ t < 0x100000000) : Succeeds (target t) := by
  intro s
  unfold target
  rw [if_pos h]
  exact ⟨_, _, run_lift_eq_ok_iff.2 rfl⟩

theorem sound_fresh (supply : LabelSupply) : Sound { supply := supply } :=
  ⟨nofun, nofun⟩

end PositionLabels

/-! ### Instructions -/

/-- The instruction that a scanned one becomes, before labels and markers are attached. -/
def Scanned.LabelledAs (st : PositionLabels) (s : Scanned) (i : Instruction) : Prop :=
  ∃ p, Payload.Related st.Named s.payload p ∧
    i = { opcode := s.info.opcode, operand := Operand.filled s.info p, offset? := some s.offset }

theorem Scanned.tryStep_labelled (P : Nat → Prop) :
    (PositionLabels.growth P).TryStep (fun s : Scanned => ∀ t ∈ s.payload.targets, P t.toNat)
      Scanned.LabelledAs Scanned.labelled where
  keep := by
    rintro st st' s i hle ⟨p, hp, rfl⟩
    exact ⟨p, hp.imp fun _ _ => PositionLabels.Named.keep hle, rfl⟩
  run := by
    intro s st i st' hD hrun
    simp only [Scanned.labelled, run_bind_eq_ok_iff, run_pure_eq_ok_iff] at hrun
    obtain ⟨p, st₁, hp, rfl, rfl⟩ := hrun
    obtain ⟨hle, hrelated⟩ := (PositionLabels.tryStep_target P).mapTargets.run hD hp
    exact ⟨hle, p, hrelated, rfl⟩

theorem Scanned.succeeds_labelled {s : Scanned}
    (h : ∀ t ∈ s.payload.targets, 0 ≤ t ∧ t < 0x100000000) : Succeeds s.labelled := by
  intro st
  obtain ⟨p, st', hp⟩ :=
    Succeeds.mapTargets (fun t ht => PositionLabels.succeeds_target (h t ht)) st
  refine ⟨{ opcode := s.info.opcode, operand := Operand.filled s.info p, offset? := some s.offset },
    st', ?_⟩
  simp only [Scanned.labelled, run_bind_eq_ok_iff, run_pure_eq_ok_iff]
  exact ⟨p, st', hp, rfl, rfl⟩

/-- What is read for a scanned instruction, once the labels are known. -/
structure Instruction.ReadAs (clauses : List Clause) (st : PositionLabels) (s : Scanned)
    (i : Instruction) : Prop where
  opcode : i.opcode = s.info.opcode
  operand : ∃ p, i.operand.payload? = some p ∧ Payload.Related st.Named s.payload p
  labels : i.labels = (st.labels.get? s.offset).toList
  markers : i.markers = PlacedMarker.at? s.offset (PlacedMarker.ofClauses clauses)

/-- Every label is attached when every position with a label is the beginning of an instruction. -/
theorem firstUnattached?_eq_none_iff {offsets : List Nat} {labels : KeyMap Label} :
    firstUnattached? offsets labels = none ↔ ∀ k l, labels.get? k = some l → k ∈ offsets := by
  simp only [firstUnattached?, Option.map_eq_none_iff, List.find?_eq_none, Bool.not_eq_true',
    Bool.not_eq_false, List.contains_eq_mem, decide_eq_true_eq, Prod.forall]
  constructor
  · exact fun h k l hget => h k l (KeyMap.mem_entries_of_get? hget)
  · intro h k l hmem
    obtain ⟨b, hb⟩ := KeyMap.exists_get?_of_mem hmem
    exact h k b hb

/-! ### Bodies -/

section

variable {μ : Type} [Metadata μ] {metadata : μ}

/-- Each instruction that a code spells has an opcode of the table and a payload that suits it. -/
theorem Spelling.suits {locals : List TypeRef} {position : Nat} {ss : List Scanned}
    {code : List UInt8} (h : Spelling metadata locals position ss code) :
    ∀ s ∈ ss, s.info.opcode.info? = some s.info ∧ s.info.suits s.payload = true := by
  intro s hs
  obtain ⟨bytes, hrow, operand, -, hoperand⟩ := h.exists_spelled s hs
  exact ⟨hrow, hoperand.suits hrow⟩

theorem readAs_attach {clauses : List Clause} {st : PositionLabels} {s : Scanned} {i : Instruction}
    (hs : s.info.opcode.info? = some s.info ∧ s.info.suits s.payload = true)
    (h : s.LabelledAs st i) :
    (i.attach st.labels (PlacedMarker.ofClauses clauses)).ReadAs clauses st s := by
  obtain ⟨p, hp, rfl⟩ := h
  exact ⟨rfl, ⟨p, Operand.payload?_filled hs.1 ((hp.suits _).symm.trans hs.2), hp⟩, rfl, rfl⟩

variable {body : Body} {supply : LabelSupply}

/-- What it takes to read a body. -/
theorem Body.decode_eq_ok_iff {out : List Instruction} {st : PositionLabels} :
    body.decode metadata supply = (.ok out, st) ↔
      ∃ ss is, Spelling metadata body.locals 0 ss body.code ∧
        (ss.mapM Scanned.labelled).run { supply := supply } = (.ok is, st) ∧
        firstUnattached? (ss.map (·.offset)) st.labels = none ∧
        PlacedMarker.firstMisplaced? body.code.length (ss.map (·.offset))
          (PlacedMarker.ofClauses body.clauses) = none ∧
        is.map (Instruction.attach st.labels (PlacedMarker.ofClauses body.clauses)) = out := by
  simp only [← Body.scan_eq_iff]
  unfold Body.decode Body.instructions
  rcases hscan : body.scan metadata with ⟨ss, failure⟩
  simp only
  rw [run_bind_eq_ok_iff]
  cases failure with
  | some e =>
    -- the instructions in front of the failure are labelled, then the failure comes out
    constructor
    · rintro ⟨is, st₁, _, h⟩
      cases h
    · rintro ⟨ss', is, h, _⟩
      cases h
  | none =>
    constructor
    · rintro ⟨is, st₁, his, h⟩
      obtain ⟨_, _, hget, h⟩ := run_bind_eq_ok_iff.1 h
      cases hget
      split at h
      · cases h
      · next hattached =>
        split at h
        · cases h
        · next hmisplaced =>
          obtain ⟨rfl, rfl⟩ := run_pure_eq_ok_iff.1 h
          exact ⟨ss, is, rfl, his, hattached, hmisplaced, rfl⟩
    · rintro ⟨ss', is, heq, his, hattached, hmisplaced, rfl⟩
      cases heq
      refine ⟨is, st, his, run_bind_eq_ok_iff.2 ⟨st, st, rfl, ?_⟩⟩
      simp only [hattached, hmisplaced]
      rfl

/-- **What is read corresponds to what the code spells.** -/
theorem readAs_of_decode {out : List Instruction} {st : PositionLabels}
    (h : body.decode metadata supply = (.ok out, st)) :
    ∃ ss, Spelling metadata body.locals 0 ss body.code ∧ st.Sound ∧
      (∀ k l, st.labels.get? k = some l → k ∈ ss.map (·.offset)) ∧
      List.Forall₂ (Instruction.ReadAs body.clauses st) ss out := by
  obtain ⟨ss, is, hss, his, hattached, -, rfl⟩ := Body.decode_eq_ok_iff.1 h
  obtain ⟨hle, hlabelled⟩ :=
    (Scanned.tryStep_labelled fun _ => True).mapM.run (fun _ _ _ _ => trivial) his
  refine ⟨ss, hss, hle.sound (PositionLabels.sound_fresh supply),
    firstUnattached?_eq_none_iff.1 hattached, ?_⟩
  rw [List.forall₂_map_right_iff]
  exact (forall₂_and_mem hlabelled).imp fun s i hsi => readAs_attach (hss.suits s hsi.1) hsi.2.2

/-- An instruction is read with its offset. -/
theorem map_offset?_of_decode {out : List Instruction} {st : PositionLabels}
    (h : body.decode metadata supply = (.ok out, st)) {ss : List Scanned}
    (hss : Spelling metadata body.locals 0 ss body.code) :
    out.map (·.offset?) = ss.map fun s => some s.offset := by
  obtain ⟨ss', is, hss', his, -, -, rfl⟩ := Body.decode_eq_ok_iff.1 h
  obtain rfl := hss.unique hss'
  obtain ⟨-, hlabelled⟩ :=
    (Scanned.tryStep_labelled fun _ => True).mapM.run (fun _ _ _ _ => trivial) his
  rw [List.map_map, ← List.forall₂_eq_eq_eq, List.forall₂_map_left_iff, List.forall₂_map_right_iff]
  refine hlabelled.flip.imp ?_
  rintro i s ⟨p, -, rfl⟩
  rfl

/-- A position gets a label only for a jump that goes there. -/
theorem exists_target_of_decode {out : List Instruction} {st : PositionLabels}
    (h : body.decode metadata supply = (.ok out, st)) {ss : List Scanned}
    (hss : Spelling metadata body.locals 0 ss body.code) {k : Nat} {l : Label}
    (hl : st.labels.get? k = some l) : ∃ s ∈ ss, ∃ t ∈ s.payload.targets, t.toNat = k := by
  obtain ⟨ss', is, hss', his, -, -, -⟩ := Body.decode_eq_ok_iff.1 h
  obtain rfl := hss.unique hss'
  obtain ⟨hle, -⟩ :=
    (Scanned.tryStep_labelled fun k => ∃ s ∈ ss, ∃ t ∈ s.payload.targets, t.toNat = k).mapM.run
      (fun s hs t ht => ⟨s, hs, t, ht, rfl⟩) his
  exact hle.positions nofun k l hl

/-- **Reading succeeds.**  A body is read if its code spells instructions whose targets are
positions of instructions, and its exception table lies on instructions. -/
theorem exists_decode (supply : LabelSupply) {ss : List Scanned}
    (hss : Spelling metadata body.locals 0 ss body.code)
    (htargets : ∀ s ∈ ss, ∀ t ∈ s.payload.targets,
      0 ≤ t ∧ t < 0x100000000 ∧ t.toNat ∈ ss.map (·.offset))
    (hmisplaced : PlacedMarker.firstMisplaced? body.code.length (ss.map (·.offset))
      (PlacedMarker.ofClauses body.clauses) = none) :
    ∃ out st, body.decode metadata supply = (.ok out, st) := by
  have hrange : ∀ s ∈ ss, ∀ t ∈ s.payload.targets, 0 ≤ t ∧ t < 0x100000000 :=
    fun s hs t ht => ⟨(htargets s hs t ht).1, (htargets s hs t ht).2.1⟩
  obtain ⟨is, st, his⟩ := Succeeds.mapM
    (fun s hs => Scanned.succeeds_labelled (hrange s hs)) { supply := supply }
  obtain ⟨hle, -⟩ := (Scanned.tryStep_labelled (· ∈ ss.map (·.offset))).mapM.run
    (fun s hs t ht => (htargets s hs t ht).2.2) his
  have hattached := firstUnattached?_eq_none_iff.2 (hle.positions nofun)
  exact ⟨_, st, Body.decode_eq_ok_iff.2 ⟨ss, is, hss, his, hattached, hmisplaced, rfl⟩⟩

/-- Whether a body is read does not depend on the labels that are left. -/
theorem exists_decode_of_decode {out : List Instruction} {st : PositionLabels}
    (h : body.decode metadata supply = (.ok out, st)) (supply' : LabelSupply) :
    ∃ out' st', body.decode metadata supply' = (.ok out', st') := by
  obtain ⟨ss, is, hss, his, hattached, hmisplaced, -⟩ := Body.decode_eq_ok_iff.1 h
  obtain ⟨-, hlabelled⟩ :=
    (Scanned.tryStep_labelled fun _ => True).mapM.run (fun _ _ _ _ => trivial) his
  refine exists_decode supply' hss (fun s hs t ht => ?_) hmisplaced
  -- the target has a label, and all labels are attached
  obtain ⟨i, -, p, hp, -⟩ := exists_of_mem_left hlabelled hs
  obtain ⟨l, -, hlow, hhigh, hl⟩ := exists_of_mem_left hp.targets ht
  exact ⟨hlow, hhigh, firstUnattached?_eq_none_iff.1 hattached _ _ hl⟩

end

end MethodWeave
