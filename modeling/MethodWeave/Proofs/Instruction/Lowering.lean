import MethodWeave.Instruction.Native
import MethodWeave.Proofs.Pass
/-!
What lowering does to a list of instructions.

A pass of lowering only adds to its table of targets, so every native instruction can be compared
with its origin in the last state of the pass (`Instruction.LowersTo`).  Main results:
`lowersTo_of_lowerAll`, the native stream of a pass corresponds to the instructions one by one and
different free labels get different native labels; and `exists_lowerWith`, lowering succeeds when
every operand is set.
-/

namespace MethodWeave

/-! ### Labels of a pass -/

namespace Lowering

/-- What the label resolves to is settled. -/
def Resolved (s : Lowering) (l : Label) (t : NativeLabel) : Prop :=
  match l.fixed? with
  | some target => t = target
  | none => s.targets.get? l.id = some t

/-- Free labels have native labels that the generator has handed out, each its own. -/
structure Sound (s : Lowering) : Prop where
  handedOut : ∀ {k t}, s.targets.get? k = some t → t.number < s.generator.nextLabel
  injective : ∀ {k k' t}, s.targets.get? k = some t → s.targets.get? k' = some t → k = k'

/-- What a pass keeps as it goes on. -/
structure Grows (s s' : Lowering) : Prop where
  sound : s.Sound → s'.Sound
  targets : ∀ {k t}, s.targets.get? k = some t → s'.targets.get? k = some t
  locals : s'.generator.locals = s.generator.locals

def growth : Growth Lowering where
  le := Grows
  refl _ := ⟨id, id, rfl⟩
  trans h h' := ⟨h'.sound ∘ h.sound, h'.targets ∘ h.targets, h'.locals.trans h.locals⟩

theorem step_resolve : growth.Step Resolved resolve where
  keep := by
    intro s s' l t hle hR
    unfold Resolved at hR ⊢
    split at hR
    · exact hR
    · exact hle.targets hR
  run := by
    intro l s
    cases hf : l.fixed? with
    | some target =>
      rw [resolve_fixed hf]
      exact ⟨growth.refl s, by simp [Resolved, hf]⟩
    | none =>
      cases hget : s.targets.get? l.id with
      | some target =>
        rw [resolve_of_get? hf hget]
        exact ⟨growth.refl s, by simp [Resolved, hf, hget]⟩
      | none =>
        simp only [resolve, hf, hget, defineLabel, Generator.defineLabel]
        refine ⟨⟨fun h => ⟨fun {k t} hk => ?_, fun {k k' t} hk hk' => ?_⟩,
          KeyMap.get?_insert_of_none hget, rfl⟩, by simp [Resolved, hf]⟩
        · refine KeyMap.forall_get?_insert (P := fun _ t => t.number < s.generator.nextLabel + 1)
            (fun ht => ?_) (Nat.lt_succ_self _) hk
          exact Nat.lt_succ_of_lt (h.handedOut ht)
        · -- the native label is new to the generator, so no label resolves to it yet
          refine KeyMap.injective_insert h.injective (fun ht => ?_) hk hk'
          exact Nat.lt_irrefl _ (h.handedOut ht)

/-- Free labels that resolve to one native label have one number. -/
theorem Sound.eq_of_resolved {s : Lowering} (h : s.Sound) {l l' : Label} {t : NativeLabel}
    (hl : l.fixed? = none) (hl' : l'.fixed? = none) (ht : s.Resolved l t) (ht' : s.Resolved l' t) :
    l = l' := by
  simp only [Resolved, hl] at ht
  simp only [Resolved, hl'] at ht'
  have hid := h.injective ht ht'
  cases l; cases l'
  simp_all

/-- A label resolves to one native label. -/
theorem resolved_unique (s : Lowering) {l : Label} {t t' : NativeLabel} (ht : s.Resolved l t)
    (ht' : s.Resolved l t') : t = t' := by
  cases hl : l.fixed? with
  | some target =>
    simp only [Resolved, hl] at ht ht'
    exact ht.trans ht'.symm
  | none =>
    simp only [Resolved, hl] at ht ht'
    exact Option.some.inj (ht.symm.trans ht')

/-- It is what resolving it gives. -/
theorem eq_of_resolved (s : Lowering) {l : Label} {t : NativeLabel} (h : s.Resolved l t) :
    t = (s.resolve l).1 := by
  cases hl : l.fixed? with
  | some target =>
    rw [resolve_fixed hl]
    simpa only [Resolved, hl] using h
  | none =>
    have hget : s.targets.get? l.id = some t := by simpa only [Resolved, hl] using h
    rw [resolve_of_get? hl hget]

theorem sound_fresh (g : Generator) (log : Log) : Sound { generator := g, log := log } :=
  ⟨nofun, nofun⟩

end Lowering

/-! ### Labels in order -/

namespace NativeLabel

theorem perm_insertInto (l : NativeLabel) (ls : List NativeLabel) :
    (l.insertInto ls).Perm (l :: ls) := by
  induction ls with
  | nil => exact .refl _
  | cons k rest ih =>
    simp only [insertInto]
    split
    · exact .refl _
    · exact (ih.cons k).trans (.swap l k rest)

theorem perm_sort (ls : List NativeLabel) : (sort ls).Perm ls := by
  induction ls with
  | nil => exact .refl _
  | cons l rest ih => exact (perm_insertInto l (sort rest)).trans (ih.cons l)

theorem pairwise_insertInto (l : NativeLabel) {ls : List NativeLabel}
    (h : ls.Pairwise (·.number ≤ ·.number)) : (l.insertInto ls).Pairwise (·.number ≤ ·.number) := by
  induction ls with
  | nil => exact List.pairwise_singleton _ l
  | cons k rest ih =>
    obtain ⟨hk, hrest⟩ := List.pairwise_cons.1 h
    simp only [insertInto]
    split
    · next hle =>
      refine List.pairwise_cons.2 ⟨List.forall_mem_cons.2 ⟨hle, fun m hm => ?_⟩, h⟩
      exact Nat.le_trans hle (hk m hm)
    · next hlt =>
      refine List.pairwise_cons.2 ⟨fun m hm => ?_, ih hrest⟩
      rcases List.mem_cons.1 ((perm_insertInto l rest).mem_iff.1 hm) with rfl | hm
      · exact Nat.le_of_not_le hlt
      · exact hk m hm

theorem pairwise_sort (ls : List NativeLabel) : (sort ls).Pairwise (·.number ≤ ·.number) := by
  induction ls with
  | nil => exact .nil
  | cons l rest ih => exact pairwise_insertInto l ih

/-- What is sorted is settled by the labels alone. -/
theorem sort_eq_of_perm {ls ls' : List NativeLabel} (h : ls.Perm ls')
    (hle : ls'.Pairwise (·.number ≤ ·.number)) : sort ls = ls' := by
  refine ((perm_sort ls).trans h).eq_of_pairwise (fun l k _ _ hlk hkl => ?_) (pairwise_sort ls) hle
  obtain ⟨n⟩ := l
  obtain ⟨m⟩ := k
  rw [show n = m from Nat.le_antisymm hlk hkl]

end NativeLabel

/-! ### Instructions of a pass -/

namespace Instruction

/-- The native instruction is what the instruction is lowered to, with labels as the state of the
pass resolves them. -/
structure LowersTo (s : Lowering) (i : Instruction) (n : NativeInstruction) : Prop where
  opcode : n.opcode = i.opcode
  operand : ∃ p, i.operand.payload? = some p ∧ Payload.Related s.Resolved p n.operand
  labels : ∃ ts, List.Forall₂ s.Resolved i.labels ts ∧ n.labels = NativeLabel.sort ts
  markers : n.markers = i.markers

/-- The native labels of an instruction are what its labels resolve to. -/
theorem LowersTo.perm_labels {s : Lowering} {i : Instruction} {n : NativeInstruction}
    (h : i.LowersTo s n) : n.labels.Perm (i.labels.map fun l => (s.resolve l).1) := by
  obtain ⟨ts, hts, hsort⟩ := h.labels
  rw [hsort, ← forall₂_eq_map_iff.1 (hts.imp fun _ _ => s.eq_of_resolved)]
  exact NativeLabel.perm_sort ts

theorem LowersTo.mem_labels {s : Lowering} {i : Instruction} {n : NativeInstruction}
    (h : i.LowersTo s n) {l : Label} (hl : l ∈ i.labels) {t : NativeLabel} (ht : s.Resolved l t) :
    t ∈ n.labels := by
  rw [h.perm_labels.mem_iff, s.eq_of_resolved ht]
  exact List.mem_map_of_mem hl

/-- So are those of a stream. -/
theorem perm_labels_of_lowersTo {s : Lowering} {is : List Instruction}
    {stream : List NativeInstruction} (h : List.Forall₂ (LowersTo s) is stream) :
    (stream.flatMap (·.labels)).Perm ((is.flatMap (·.labels)).map fun l => (s.resolve l).1) := by
  rw [List.map_flatMap]
  exact perm_flatMap_of_forall₂ (h.imp fun _ _ hi => hi.perm_labels)

/-- Lowering resolves the labels of the operand and then those that mark the instruction. -/
theorem run_lower_eq_ok_iff {i : Instruction} {n : NativeInstruction} {s s' : Lowering} :
    i.lower.run s = (.ok n, s') ↔ ∃ p operand s₁ labels,
      i.operand.payload? = some p ∧
      p.mapTargetsM (m := StateM Lowering) Lowering.resolve s = (operand, s₁) ∧
      i.labels.mapM (m := StateM Lowering) Lowering.resolve s₁ = (labels, s') ∧
      n = { opcode := i.opcode, operand := operand, labels := NativeLabel.sort labels
            markers := i.markers } := by
  unfold lower
  cases hp : i.operand.payload? with
  | none =>
    constructor
    · intro h
      cases h
    · rintro ⟨_, _, _, _, h, -⟩
      cases h
  | some p =>
    simp only [run_bind_eq_ok_iff, run_pure_eq_ok_iff, run_lift_eq_ok_iff, Option.some.injEq]
    constructor
    · rintro ⟨operand, s₁, hoperand, labels, s₂, hlabels, rfl, rfl⟩
      exact ⟨p, operand, s₁, labels, rfl, hoperand, hlabels, rfl⟩
    · rintro ⟨_, operand, s₁, labels, rfl, hoperand, hlabels, rfl⟩
      exact ⟨operand, s₁, hoperand, labels, s', hlabels, rfl, rfl⟩

theorem tryStep_lower : Lowering.growth.TryStep (fun _ => True) LowersTo lower where
  keep := by
    rintro s s' i n hle ⟨hopcode, ⟨p, hp, hrelated⟩, ⟨ts, hts, hsort⟩, hmarkers⟩
    refine ⟨hopcode, ⟨p, hp, hrelated.imp fun _ _ => Lowering.step_resolve.keep hle⟩,
      ⟨ts, ?_, hsort⟩, hmarkers⟩
    exact hts.imp fun _ _ => Lowering.step_resolve.keep hle
  run := by
    intro i s n s' _ hrun
    obtain ⟨p, operand, s₁, labels, hp, hoperand, hlabels, rfl⟩ := run_lower_eq_ok_iff.1 hrun
    obtain ⟨hle₁, hrelated⟩ := Lowering.step_resolve.mapTargets.run p s
    obtain ⟨hle₂, hresolved⟩ := Lowering.step_resolve.mapM.run i.labels s₁
    rw [hoperand] at hle₁ hrelated
    rw [hlabels] at hle₂ hresolved
    refine ⟨Lowering.growth.trans hle₁ hle₂, rfl, ⟨p, hp, ?_⟩, ⟨labels, hresolved, rfl⟩, rfl⟩
    exact hrelated.imp fun _ _ => Lowering.step_resolve.keep hle₂

theorem succeeds_lower {i : Instruction} {p : Payload Label} (h : i.operand.payload? = some p) :
    Succeeds i.lower := by
  intro s
  exact ⟨_, _, run_lower_eq_ok_iff.2 ⟨p, _, _, _, h, rfl, rfl, rfl⟩⟩

/-- **Lowering keeps instructions apart and together.**  The native stream of a pass corresponds to
the instructions one by one in the last state of the pass; if the pass began with a sound state it
is sound, and the locals are those that it began with. -/
theorem lowersTo_of_lowerAll {s s' : Lowering} {is : List Instruction}
    {stream : List NativeInstruction} (h : (lowerAll is).run s = (.ok stream, s')) :
    (s.Sound → s'.Sound) ∧ s'.generator.locals = s.generator.locals ∧
      List.Forall₂ (LowersTo s') is stream := by
  obtain ⟨hle, hlowers⟩ := tryStep_lower.mapM.run (fun _ _ => trivial) h
  exact ⟨hle.sound, hle.locals, hlowers⟩

/-- The same for a pass of its own. -/
theorem lowersTo_of_lowerWith {g g' : Generator} {is : List Instruction}
    {stream : List NativeInstruction} (h : lowerWith g is = (.ok stream, g')) :
    ∃ s : Lowering, s.Sound ∧ g'.locals = g.locals ∧ List.Forall₂ (LowersTo s) is stream := by
  unfold lowerWith at h
  rw [Prod.mk.injEq] at h
  obtain ⟨hok, rfl⟩ := h
  generalize hrun : (lowerAll is).run { generator := g } = outcome at hok
  obtain ⟨result, s⟩ := outcome
  simp only at hok
  rw [hok] at hrun
  obtain ⟨hsound, hlocals, hlowers⟩ := lowersTo_of_lowerAll hrun
  exact ⟨s, hsound (Lowering.sound_fresh g {}), hlocals, hlowers⟩

/-- Lowering succeeds when every operand is set. -/
theorem exists_lowerWith {g : Generator} {is : List Instruction}
    (h : ∀ i ∈ is, ∃ p, i.operand.payload? = some p) :
    ∃ stream g', lowerWith g is = (.ok stream, g') := by
  obtain ⟨stream, s, hrun⟩ := Succeeds.mapM (fun i hi => succeeds_lower (h i hi).choose_spec)
    { generator := g }
  refine ⟨stream, s.generator, ?_⟩
  simp only [lowerWith, lowerAll, hrun]

end Instruction

end MethodWeave
