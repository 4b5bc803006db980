import MethodWeave.Proofs.Native.Encoding
/-!
Which streams are encoded.

Whether an instruction can be written is settled before the stream is laid out: its labels have to
mark something, the slots that it names have to be declared, and its value has to fit the bytes of
its class (`Payload.Writable`).  Neither the places of the instructions nor the strings that the
metadata have matter to that.  Main result: `exists_encode_iff`, which says so of a whole stream.
-/

namespace MethodWeave

/-! ### Operands that can be written -/

section

variable {τ : Type}

/-- The value fits an operand of the class, and a local that it names is declared. -/
def Payload.Writable (c : OperandClass) (localCount : Nat) : Payload τ → Prop
  | .int32 v => c = .shortInt → -128 ≤ v.toInt ∧ v.toInt ≤ 127
  | .local l => l.index.toNat < localCount ∧ (c = .shortVar → l.index.toNat < 256)
  | .argument index => c = .shortVar → index.toNat < 256
  | _ => True

/-- Further locals hide nothing. -/
theorem Payload.Writable.mono {c : OperandClass} {m n : Nat} {p : Payload τ} (h : p.Writable c m)
    (hle : m ≤ n) : p.Writable c n := by
  cases p with
  | «local» l => exact ⟨Nat.lt_of_lt_of_le h.1 hle, h.2⟩
  | _ => exact h

end

theorem exists_bind_pure_iff {ε α β : Type} {x : Except ε α} {f : α → β} :
    (∃ b, (x >>= fun a => pure (f a)) = .ok b) ↔ ∃ a, x = .ok a := by
  simp only [bind_eq_ok_iff, pure_eq_ok_iff]
  exact ⟨fun ⟨_, a, ha, _⟩ => ⟨a, ha⟩, fun ⟨a, ha⟩ => ⟨_, a, ha, rfl⟩⟩

/-- All of a list is mapped without failure exactly if each entry is. -/
theorem exists_mapM_eq_ok_iff {ε α β : Type} {f : α → Except ε β} {as : List α} :
    (∃ bs, as.mapM f = .ok bs) ↔ ∀ a ∈ as, ∃ b, f a = .ok b := by
  constructor
  · rintro ⟨bs, hbs⟩ a ha
    obtain ⟨b, -, hb⟩ := exists_of_mem_left (mapM_eq_ok_iff.1 hbs) ha
    exact ⟨b, hb⟩
  · intro h
    induction as with
    | nil => exact ⟨[], rfl⟩
    | cons a as ih =>
      obtain ⟨⟨b, hb⟩, has⟩ := List.forall_mem_cons.1 h
      obtain ⟨bs, hbs⟩ := ih has
      exact ⟨b :: bs, mapM_eq_ok_iff.2 (.cons hb (mapM_eq_ok_iff.1 hbs))⟩

theorem exists_varBytes_iff {index : Nat} {c : OperandClass} {slot : UInt16} :
    (∃ bytes, varBytes index c slot = .ok bytes) ↔ (c = .shortVar → slot.toNat < 256) := by
  unfold varBytes
  by_cases hc : c = .shortVar
  · by_cases hslot : slot.toNat < 256 <;> simp [hc, hslot]
  · simp [hc]

namespace Placed

/-- A label is reached exactly if it marks something. -/
theorem exists_reach_iff {p : Placed} {index : Nat} {bound : List (NativeLabel × Nat)}
    {l : NativeLabel} :
    (∃ d, p.reach index bound l = .ok d) ↔ ∃ k, bound.lookup l = some k := by
  unfold reach displacement?
  cases bound.lookup l <;> simp

variable {p : Placed} {info : Opcode.Info} {index localCount : Nat}
  {bound : List (NativeLabel × Nat)} {token : Token}

/-- **What it takes to write an operand** that suits the form of the instruction. -/
theorem exists_operandBytes_iff (hrow : p.form.info? = some info)
    (hsuits : info.suits p.insn.operand = true) :
    (∃ bytes, p.operandBytes index bound localCount token = .ok bytes) ↔
      p.insn.operand.Writable info.operand localCount ∧
        ∀ l ∈ p.insn.operand.targets, ∃ k, bound.lookup l = some k := by
  unfold operandBytes
  rw [Opcode.operandClass?_of_info? hrow]
  -- labels may be missing; numbers and slots may not fit; nothing else is refused
  cases hoperand : p.insn.operand with
  | label l =>
    rw [hoperand, Opcode.Info.suits_label_iff] at hsuits
    have hwritable : (Payload.label l).Writable info.operand localCount ↔ True := Iff.rfl
    rw [hwritable, true_and]
    simp only [Payload.targets, List.mem_singleton, forall_eq]
    rcases hsuits with hc | hc <;> rw [hc] <;>
      exact exists_bind_pure_iff.trans exists_reach_iff
  | labels ls =>
    rw [hoperand, Opcode.Info.suits_labels_iff] at hsuits
    rw [hsuits]
    have hwritable : (Payload.labels ls).Writable .switch localCount ↔ True := Iff.rfl
    rw [hwritable, true_and]
    refine exists_bind_pure_iff.trans (exists_mapM_eq_ok_iff.trans ?_)
    exact forall₂_congr fun l _ => exists_reach_iff
  | int32 v =>
    rw [hoperand, Opcode.Info.suits_int32_iff] at hsuits
    rcases hsuits with hc | hc <;> rw [hc]
    · by_cases hv : -128 ≤ v.toInt ∧ v.toInt ≤ 127 <;> simp [hv, Payload.Writable, Payload.targets]
    · simp [Payload.Writable, Payload.targets]
  | «local» l =>
    rw [hoperand, Opcode.Info.suits_local_iff] at hsuits
    rcases hsuits.1 with hc | hc <;> rw [hc] <;>
      by_cases hl : l.index.toNat < localCount <;>
      simp [hl, exists_varBytes_iff, Payload.Writable, Payload.targets]
  | argument slot =>
    rw [hoperand, Opcode.Info.suits_argument_iff] at hsuits
    rcases hsuits.1 with hc | hc <;> rw [hc] <;>
      simp [exists_varBytes_iff, Payload.Writable, Payload.targets]
  | _ =>
    have hbytes {bytes : List UInt8} {P : Prop} (hP : P) :
        (∃ written, (.ok bytes : Except EncodeError (List UInt8)) = .ok written) ↔ P :=
      ⟨fun _ => hP, fun _ => ⟨bytes, rfl⟩⟩
    cases info.operand <;> exact hbytes ⟨trivial, List.forall_mem_nil _⟩

end Placed

/-! ### Streams that can be written -/

/-- The opcode is known, and the operand suits it and can be written. -/
def NativeInstruction.Writable (i : NativeInstruction) (localCount : Nat) : Prop :=
  ∃ info, i.opcode.info? = some info ∧ info.suits i.operand = true ∧
    i.operand.Writable info.operand localCount

theorem NativeInstruction.Writable.mono {i : NativeInstruction} {m n : Nat} (h : i.Writable m)
    (hle : m ≤ n) : i.Writable n := by
  obtain ⟨info, hinfo, hsuits, hwritable⟩ := h
  exact ⟨info, hinfo, hsuits, hwritable.mono hle⟩

/-- What can be written in the one form can be written in the other: only labels have two. -/
theorem NativeInstruction.TakesForm.writable_iff {i : NativeInstruction} {form : Opcode}
    {info info' : Opcode.Info} {localCount : Nat} (h : i.TakesForm form)
    (hinfo : i.opcode.info? = some info) (hsuits : info.suits i.operand = true)
    (hinfo' : form.info? = some info') :
    i.operand.Writable info'.operand localCount ↔ i.operand.Writable info.operand localCount := by
  rcases h with rfl | hlong
  · rw [Option.some.inj (hinfo.symm.trans hinfo')]
  · have hshort := (Opcode.operand_of_longForm? hinfo hlong).1
    unfold Opcode.Info.suits at hsuits
    rw [hshort] at hsuits
    cases hop : i.operand with
    | label l => exact Iff.rfl
    | _ => simp [hop] at hsuits

section

variable {μ : Type} [Metadata μ] {metadata : μ} {bound : List (NativeLabel × Nat)}
  {index localCount : Nat} {placed : List Placed}

/-- A layout whose operands suit its forms is written exactly if each operand is. -/
theorem exists_writeFrom_iff
    (hsuits : ∀ p ∈ placed, ∃ info, p.form.info? = some info ∧ info.suits p.insn.operand = true) :
    (∃ code metadata', writeFrom bound localCount index metadata placed = (.ok code, metadata')) ↔
      ∀ p ∈ placed, (∃ info, p.form.info? = some info ∧
          p.insn.operand.Writable info.operand localCount) ∧
        ∀ l ∈ p.insn.operand.targets, ∃ k, bound.lookup l = some k := by
  induction placed generalizing index metadata with
  | nil => exact ⟨fun _ => nofun, fun _ => ⟨[], metadata, rfl⟩⟩
  | cons p rest ih =>
    obtain ⟨⟨info, hinfo, hp⟩, hrest⟩ := List.forall_mem_cons.1 hsuits
    have hwritable : (∃ info, p.form.info? = some info ∧
        p.insn.operand.Writable info.operand localCount) ↔
          p.insn.operand.Writable info.operand localCount := by
      simp [hinfo]
    obtain ⟨token, metadata₁, hintern⟩ : ∃ token metadata₁,
        p.internString metadata = (token, metadata₁) := ⟨_, _, rfl⟩
    have hbytes : (∃ bytes, p.operandBytes index bound localCount token = .ok bytes) ↔ _ :=
      p.exists_operandBytes_iff hinfo hp
    have hmore : (∃ code metadata', writeFrom bound localCount (index + 1) metadata₁ rest =
      (.ok code, metadata')) ↔ _ := ih hrest
    rw [List.forall_mem_cons, hwritable, ← hbytes, ← hmore]
    simp only [writeFrom_cons_eq_ok_iff, hintern]
    constructor
    · rintro ⟨_, metadata', operand, more, hoperand, hmore, rfl⟩
      exact ⟨⟨operand, hoperand⟩, more, metadata', hmore⟩
    · rintro ⟨⟨operand, hoperand⟩, more, metadata', hmore⟩
      exact ⟨_, metadata', operand, more, hoperand, hmore, rfl⟩

end

/-- A label has an offset exactly if it marks something. -/
theorem exists_lookup_bindings_iff {placed : List Placed} {l : NativeLabel} :
    (∃ k, (bindings placed).lookup l = some k) ↔ ∃ p ∈ placed, l ∈ p.insn.labels := by
  constructor
  · rintro ⟨k, hk⟩
    obtain ⟨p, hp, hl, -⟩ := mem_of_lookup_bindings hk
    exact ⟨p, hp, hl⟩
  · rintro ⟨p, hp, hl⟩
    refine Option.isSome_iff_exists.1 ?_
    rw [Option.isSome_iff_ne_none, Ne, List.lookup_eq_none_iff]
    intro hnone
    have hmem : (l, p.start) ∈ bindings placed :=
      List.mem_flatMap.2 ⟨p, hp, List.mem_map_of_mem hl⟩
    simpa using hnone _ hmem

/-! ### The settled layout -/

theorem length_settle (stream : List NativeInstruction) :
    (settle stream).length = stream.length := by
  rw [← List.length_map (·.insn), map_insn_settle]

theorem mem_of_mem_settle {stream : List NativeInstruction} {p : Placed} (hp : p ∈ settle stream) :
    p.insn ∈ stream ∧ p.insn.TakesForm p.form := by
  obtain ⟨settled, hsettle, hinsns, hforms, -⟩ := settle_settled stream
  rw [hsettle] at hp
  rw [← hinsns]
  exact ⟨List.mem_map_of_mem (mem_of_mem_place hp), hforms _ (mem_of_mem_place hp)⟩

theorem exists_mem_settle {stream : List NativeInstruction} {i : NativeInstruction}
    (hi : i ∈ stream) : ∃ p ∈ settle stream, p.insn = i := by
  rw [← map_insn_settle stream] at hi
  exact List.mem_map.1 hi

/-- The labels that have an offset are those of the stream. -/
theorem exists_lookup_settle_iff {stream : List NativeInstruction} {l : NativeLabel} :
    (∃ k, (bindings (settle stream)).lookup l = some k) ↔ l ∈ stream.flatMap (·.labels) := by
  rw [exists_lookup_bindings_iff, List.mem_flatMap]
  constructor
  · rintro ⟨p, hp, hl⟩
    exact ⟨p.insn, (mem_of_mem_settle hp).1, hl⟩
  · rintro ⟨i, hi, hl⟩
    obtain ⟨p, hp, rfl⟩ := exists_mem_settle hi
    exact ⟨p, hp, hl⟩

/-- What a settled layout takes to be written, in terms of its stream. -/
theorem exists_writeFrom_settle_iff {μ : Type} [Metadata μ] {stream : List NativeInstruction}
    {localCount : Nat} {metadata : μ}
    (hchecked : ∀ i ∈ stream, ∃ info, i.opcode.info? = some info ∧ info.suits i.operand = true) :
    (∃ code metadata', writeFrom (bindings (settle stream)) localCount 0 metadata (settle stream) =
        (.ok code, metadata')) ↔
      ∀ i ∈ stream, i.Writable localCount ∧
        ∀ l ∈ i.operand.targets, l ∈ stream.flatMap (·.labels) := by
  have hsuits : ∀ p ∈ settle stream,
      ∃ info, p.form.info? = some info ∧ info.suits p.insn.operand = true := fun p hp => by
    obtain ⟨hi, htakes⟩ := mem_of_mem_settle hp
    obtain ⟨info, hinfo, hsuits⟩ := hchecked _ hi
    exact htakes.suits hinfo hsuits
  rw [exists_writeFrom_iff hsuits]
  simp only [exists_lookup_settle_iff]
  constructor
  · intro h i hi
    obtain ⟨p, hp, rfl⟩ := exists_mem_settle hi
    obtain ⟨info, hinfo, hi'⟩ := hchecked _ hi
    obtain ⟨⟨info', hinfo', hwritable⟩, htargets⟩ := h p hp
    have htakes := (mem_of_mem_settle hp).2
    exact ⟨⟨info, hinfo, hi', (htakes.writable_iff hinfo hi' hinfo').1 hwritable⟩, htargets⟩
  · intro h p hp
    obtain ⟨hi, htakes⟩ := mem_of_mem_settle hp
    obtain ⟨⟨info, hinfo, hi', hwritable⟩, htargets⟩ := h _ hi
    obtain ⟨info', hinfo', -⟩ := hsuits p hp
    exact ⟨⟨info', hinfo', (htakes.writable_iff hinfo hi' hinfo').2 hwritable⟩, htargets⟩

/-- **Which streams are encoded.**  Each instruction can be written, each label marks one place at
most and each jump goes to a label that marks one, and the markers make an exception table. -/
theorem exists_encode_iff {μ : Type} [Metadata μ] {g : Generator} {stream : List NativeInstruction}
    {metadata : μ} :
    (∃ body metadata', g.encode stream metadata = (.ok body, metadata')) ↔
      (∀ i ∈ stream, i.Writable g.locals.length) ∧ (stream.flatMap (·.labels)).Nodup ∧
      (∀ i ∈ stream, ∀ l ∈ i.operand.targets, l ∈ stream.flatMap (·.labels)) ∧
      ∃ clauses, clausesFrom (codeSize (settle stream)) 0 {}
        ((settle stream).map fun p => (p.start, p.insn.markers)) = .ok clauses := by
  simp only [Generator.encode_eq_ok_iff, checkFrom_iff, checkLabelsFrom_iff, List.not_mem_nil,
    not_false_eq_true, implies_true, and_true]
  constructor
  · rintro ⟨body, metadata', hchecked, hnodup, hwrite, hclauses, -⟩
    have hwritten := (exists_writeFrom_settle_iff hchecked).1 ⟨_, _, hwrite⟩
    exact ⟨fun i hi => (hwritten i hi).1, hnodup, fun i hi => (hwritten i hi).2, _, hclauses⟩
  · rintro ⟨hwritable, hnodup, htargets, clauses, hclauses⟩
    have hchecked : ∀ i ∈ stream, ∃ info, i.opcode.info? = some info ∧
        info.suits i.operand = true := fun i hi => by
      obtain ⟨info, hinfo, hsuits, -⟩ := hwritable i hi
      exact ⟨info, hinfo, hsuits⟩
    have hwritten : ∃ code metadata', writeFrom (bindings (settle stream)) g.locals.length 0
        metadata (settle stream) = (.ok code, metadata') :=
      (exists_writeFrom_settle_iff hchecked).2 fun i hi => ⟨hwritable i hi, htargets i hi⟩
    obtain ⟨code, metadata', hwrite⟩ := hwritten
    exact ⟨⟨code, g.locals, clauses⟩, metadata', hchecked, hnodup, hwrite, hclauses, rfl⟩

end MethodWeave
