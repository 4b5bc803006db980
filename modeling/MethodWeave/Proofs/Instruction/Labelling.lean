import Mathlib.Logic.Relation
import MethodWeave.Proofs.Instruction.Lifting
import MethodWeave.Proofs.Native.Relabelling
/-!
Labels that a pass keeps apart.

A pass is used by asking it for labels and locals (`Lowering.Draws`).  Whatever it is asked for, the
free labels that it has resolved have native labels of their own, and none of these is older than
the pass (`Lowering.SoundSince`).  A fixed label stands for an older one.  So labels that differ are
lowered to native labels that differ, if fixed labels that differ stand for native labels that
differ (`FixedBelow`).

Main results: `Lowering.SoundSince.draws`, the invariant is kept by everything that a pass is asked
for, `draws_lowerAll`, which includes lowering instructions, and `wellMarked_of_lowersTo`, code
whose labels mark one place each and whose jumps all go somewhere is lowered to such a stream.
-/

namespace MethodWeave

/-! ### What a pass is asked for -/

namespace Lowering

/-- One request to a pass.  Of native labels it involves only those of labels that are resolved and
those that are made for the request. -/
inductive Request : Lowering → Lowering → Prop
  | resolve (l : Label) (s : Lowering) : Request s (s.resolve l).2
  | defineLabel (s : Lowering) : Request s s.defineLabel.2
  /-- A label bound to a native label that is made for it. -/
  | bind (l : Label) (s : Lowering) : Request s (s.defineLabel.2.bind l s.defineLabel.1)
  | declareLocal (type : TypeRef) (s : Lowering) :
      Request s { s with generator := (s.generator.declareLocal type).2 }
  | write (level : Level) (line : Unit → String) (s : Lowering) :
      Request s { s with log := s.log.write level line }

/-- Requests to a pass one behind the other. -/
def Draws : Lowering → Lowering → Prop := Relation.ReflTransGen Request

theorem draws_declareLocal (s : Lowering) (type : TypeRef) : s.Draws (s.declareLocal type).2 :=
  (Relation.ReflTransGen.single (.declareLocal type s)).tail (.write _ _ _)

/-- Free labels have native labels of their own, handed out since the generator was at `n`. -/
structure SoundSince (n : Nat) (s : Lowering) : Prop extends s.Sound where
  le : n ≤ s.generator.nextLabel
  since : ∀ {k t}, s.targets.get? k = some t → n ≤ t.number

section

variable {n : Nat} {s s' : Lowering}

/-- A pass that begins knows no free labels. -/
theorem soundSince_begin (g : Generator) (level : Level) (log : Log) :
    SoundSince g.nextLabel { generator := g, level := level, log := log } :=
  ⟨⟨nofun, nofun⟩, Nat.le_refl _, nofun⟩

/-- Labels that nothing resolves to may be handed out. -/
theorem SoundSince.of_targets_eq (h : s.SoundSince n) (htargets : s'.targets = s.targets)
    (hle : s.generator.nextLabel ≤ s'.generator.nextLabel) : s'.SoundSince n := by
  refine ⟨⟨fun hk => ?_, fun hk hk' => ?_⟩, Nat.le_trans h.le hle, fun hk => ?_⟩
  · rw [htargets] at hk
    exact Nat.lt_of_lt_of_le (h.handedOut hk) hle
  · rw [htargets] at hk hk'
    exact h.injective hk hk'
  · rw [htargets] at hk
    exact h.since hk

/-- So may a label that one label resolves to. -/
theorem SoundSince.of_insert (h : s.SoundSince n) {k : Nat}
    (htargets : s'.targets = s.targets.insert k s.defineLabel.1)
    (hnext : s'.generator = s.defineLabel.2.generator) : s'.SoundSince n := by
  have hle : s'.generator.nextLabel = s.generator.nextLabel + 1 := by rw [hnext]; rfl
  refine ⟨⟨fun hk => ?_, fun hk hk' => ?_⟩, ?_, fun hk => ?_⟩
  · rw [htargets] at hk
    rw [hle]
    refine KeyMap.forall_get?_insert (P := fun _ t => t.number < s.generator.nextLabel + 1)
      (fun ht => ?_) (Nat.lt_succ_self _) hk
    exact Nat.lt_succ_of_lt (h.handedOut ht)
  · rw [htargets] at hk hk'
    -- the native label is new to the generator, so no label resolves to it yet
    refine KeyMap.injective_insert h.injective (fun ht => ?_) hk hk'
    exact Nat.lt_irrefl _ (h.handedOut ht)
  · rw [hle]
    exact Nat.le_succ_of_le h.le
  · rw [htargets] at hk
    exact KeyMap.forall_get?_insert (P := fun _ t => n ≤ t.number) h.since h.le hk

/-- **A request keeps native labels apart.** -/
theorem SoundSince.request (h : s.SoundSince n) (hrequest : Request s s') : s'.SoundSince n := by
  cases hrequest with
  | resolve l =>
    cases hfixed : l.fixed? with
    | some t =>
      rw [resolve_fixed hfixed]
      exact h
    | none =>
      cases hget : s.targets.get? l.id with
      | some t =>
        rw [resolve_of_get? hfixed hget]
        exact h
      | none =>
        simp only [resolve, hfixed, hget]
        exact h.of_insert rfl rfl
  | defineLabel => exact h.of_targets_eq rfl (Nat.le_succ _)
  | bind l => exact h.of_insert rfl rfl
  | declareLocal type => exact h.of_targets_eq rfl (Nat.le_refl _)
  | write level line => exact h.of_targets_eq rfl (Nat.le_refl _)

/-- **So do requests one behind the other.** -/
theorem SoundSince.draws (h : s.SoundSince n) (hdraws : s.Draws s') : s'.SoundSince n := by
  induction hdraws with
  | refl => exact h
  | tail _ hrequest ih => exact ih.request hrequest

/-- A pass that grows by requests. -/
def drawing : Growth Lowering where
  le := Draws
  refl _ := .refl
  trans := .trans

theorem step_resolve_draws : drawing.Step (fun _ _ _ => True) resolve where
  keep _ _ := trivial
  run l s := ⟨.single (.resolve l s), trivial⟩

/-- Instructions are lowered by requests for their labels. -/
theorem draws_lowerAll {code : List Instruction} {stream : List NativeInstruction}
    (h : (Instruction.lowerAll code).run s = (.ok stream, s')) : s.Draws s' := by
  have hlower : drawing.TryStep (fun _ => True) (fun _ _ _ => True) Instruction.lower :=
    { keep := fun _ _ => trivial
      run := by
        intro i s n s' _ hrun
        obtain ⟨p, operand, s₁, labels, -, hoperand, hlabels, -⟩ :=
          Instruction.run_lower_eq_ok_iff.1 hrun
        obtain ⟨hle₁, -⟩ := step_resolve_draws.mapTargets.run p s
        obtain ⟨hle₂, -⟩ := step_resolve_draws.mapM.run i.labels s₁
        rw [hoperand] at hle₁
        rw [hlabels] at hle₂
        exact ⟨hle₁.trans hle₂, trivial⟩ }
  exact (hlower.mapM.run (fun _ _ => trivial) h).1

end

end Lowering

/-! ### Labels of instructions -/

/-- The labels that an operand names. -/
def Operand.targets (operand : Operand) : List Label :=
  (operand.payload?.map Payload.targets).getD []

namespace Instruction

/-- The labels of an instruction, those that mark it and those that its operand names. -/
def mentions (i : Instruction) : List Label := i.labels ++ i.operand.targets

/-- The labels of several instructions. -/
def mentioned (code : List Instruction) : List Label := code.flatMap mentions

/-- Each label marks one place, and every jump goes to a place that is marked. -/
structure WellMarked (code : List Instruction) : Prop where
  nodup : (code.flatMap (·.labels)).Nodup
  marked : ∀ i ∈ code, ∀ l ∈ i.operand.targets, l ∈ code.flatMap (·.labels)

instance (code : List Instruction) : Decidable (WellMarked code) :=
  decidable_of_iff ((code.flatMap (·.labels)).Nodup ∧
      ∀ i ∈ code, ∀ l ∈ i.operand.targets, l ∈ code.flatMap (·.labels))
    ⟨fun h => ⟨h.1, h.2⟩, fun h => ⟨h.nodup, h.marked⟩⟩

end Instruction

/-- Fixed labels stand for native labels below `n`, each for its own. -/
structure FixedBelow (n : Nat) (ls : List Label) : Prop where
  lt : ∀ l ∈ ls, ∀ t, l.fixed? = some t → t.number < n
  injective : ∀ l ∈ ls, ∀ l' ∈ ls, ∀ t, l.fixed? = some t → l'.fixed? = some t → l = l'

/-- Free labels may be added. -/
theorem FixedBelow.of_mem_or {n : Nat} {ls ls' : List Label} (h : FixedBelow n ls)
    (hls' : ∀ l ∈ ls', l ∈ ls ∨ l.fixed? = none) : FixedBelow n ls' := by
  have hold : ∀ l ∈ ls', ∀ t, l.fixed? = some t → l ∈ ls := by
    intro l hl t ht
    rcases hls' l hl with hl | hnone
    · exact hl
    · rw [hnone] at ht
      cases ht
  exact ⟨fun l hl t ht => h.lt l (hold l hl t ht) t ht,
    fun l hl l' hl' t ht ht' => h.injective l (hold l hl t ht) l' (hold l' hl' t ht') t ht ht'⟩

theorem fixedBelow_of_free {n : Nat} {ls : List Label} (h : ∀ l ∈ ls, l.fixed? = none) :
    FixedBelow n ls := by
  have hempty : FixedBelow n [] := ⟨nofun, nofun⟩
  exact hempty.of_mem_or fun l hl => Or.inr (h l hl)

namespace Lowering

variable {n : Nat} {s : Lowering} {ls : List Label} {l l' : Label} {t : NativeLabel}

/-- A free label has a native label that the pass has handed out. -/
theorem SoundSince.resolved_since (h : s.SoundSince n) (hfree : l.fixed? = none)
    (ht : s.Resolved l t) : n ≤ t.number := by
  simp only [Resolved, hfree] at ht
  exact h.since ht

/-- What labels resolve to is older than the next label of the generator. -/
theorem SoundSince.resolved_lt (h : s.SoundSince n) (hls : FixedBelow n ls) (hl : l ∈ ls)
    (ht : s.Resolved l t) : t.number < s.generator.nextLabel := by
  cases hfixed : l.fixed? with
  | some t' =>
    simp only [Resolved, hfixed] at ht
    subst ht
    exact Nat.lt_of_lt_of_le (hls.lt l hl t hfixed) h.le
  | none =>
    simp only [Resolved, hfixed] at ht
    exact h.handedOut ht

/-- **Labels that differ resolve to native labels that differ.** -/
theorem SoundSince.eq_of_resolved (h : s.SoundSince n) (hls : FixedBelow n ls) (hl : l ∈ ls)
    (hl' : l' ∈ ls) (ht : s.Resolved l t) (ht' : s.Resolved l' t) : l = l' := by
  -- a fixed label stands for an older native label than any that the pass has handed out
  have hmixed {l l' : Label} (hl : l ∈ ls) {t' : NativeLabel} (hfixed : l.fixed? = some t')
      (hfree : l'.fixed? = none) (ht : s.Resolved l t) (ht' : s.Resolved l' t) : False := by
    simp only [Resolved, hfixed] at ht
    subst ht
    exact Nat.not_lt.2 (h.resolved_since hfree ht') (hls.lt l hl t hfixed)
  cases hfixed : l.fixed? with
  | some t₁ =>
    cases hfixed' : l'.fixed? with
    | some t₂ =>
      simp only [Resolved, hfixed] at ht
      simp only [Resolved, hfixed'] at ht'
      subst ht ht'
      exact hls.injective l hl l' hl' t hfixed hfixed'
    | none => exact (hmixed hl hfixed hfixed' ht ht').elim
  | none =>
    cases hfixed' : l'.fixed? with
    | some t₂ => exact (hmixed hl' hfixed' hfixed ht' ht).elim
    | none => exact h.toSound.eq_of_resolved hfixed hfixed' ht ht'

end Lowering

/-! ### Lowered code -/

namespace Instruction

section

variable {n : Nat} {s : Lowering} {code : List Instruction} {stream : List NativeInstruction}

/-- Every label of code that has been lowered is settled. -/
theorem resolved_of_lowersTo (h : List.Forall₂ (LowersTo s) code stream) {l : Label}
    (hl : l ∈ mentioned code) : s.Resolved l (s.resolve l).1 := by
  obtain ⟨t, ht⟩ : ∃ t, s.Resolved l t := by
    obtain ⟨i, hi, hl⟩ := List.mem_flatMap.1 hl
    obtain ⟨m, -, hm⟩ := exists_of_mem_left h hi
    rcases List.mem_append.1 hl with hl | hl
    · obtain ⟨ts, hts, -⟩ := hm.labels
      obtain ⟨t, -, ht⟩ := exists_of_mem_left hts hl
      exact ⟨t, ht⟩
    · obtain ⟨p, hp, hrelated⟩ := hm.operand
      rw [Operand.targets, hp] at hl
      obtain ⟨t, -, ht⟩ := exists_of_mem_left hrelated.targets hl
      exact ⟨t, ht⟩
  rwa [← s.eq_of_resolved ht]

/-- Labels that differ are lowered to native labels that differ, all of them older than the next
label of the generator. -/
theorem resolve_injective (hs : s.SoundSince n) (hcode : FixedBelow n (mentioned code))
    (h : List.Forall₂ (LowersTo s) code stream) :
    (∀ l ∈ mentioned code, ∀ l' ∈ mentioned code, (s.resolve l).1 = (s.resolve l').1 → l = l') ∧
      ∀ l ∈ mentioned code, (s.resolve l).1.number < s.generator.nextLabel := by
  refine ⟨fun l hl l' hl' heq => ?_, fun l hl => ?_⟩
  · have ht' := resolved_of_lowersTo h hl'
    rw [← heq] at ht'
    exact hs.eq_of_resolved hcode hl hl' (resolved_of_lowersTo h hl) ht'
  · exact hs.resolved_lt hcode hl (resolved_of_lowersTo h hl)

/-- **Well marked code is lowered to a well marked stream**, whose labels are older than the next
one of the generator. -/
theorem wellMarked_of_lowersTo (hs : s.SoundSince n) (hcode : FixedBelow n (mentioned code))
    (h : List.Forall₂ (LowersTo s) code stream) (hmarked : WellMarked code) :
    (stream.flatMap (·.labels)).Nodup ∧
      (∀ m ∈ stream, ∀ t ∈ m.operand.targets, t ∈ stream.flatMap (·.labels)) ∧
      ∀ t ∈ stream.flatMap (·.labels), t.number < s.generator.nextLabel := by
  obtain ⟨hinjective, hlt⟩ := resolve_injective hs hcode h
  have hperm := perm_labels_of_lowersTo h
  have hmentioned : ∀ l ∈ code.flatMap (·.labels), l ∈ mentioned code := by
    intro l hl
    obtain ⟨i, hi, hl⟩ := List.mem_flatMap.1 hl
    exact List.mem_flatMap.2 ⟨i, hi, List.mem_append_left _ hl⟩
  refine ⟨?_, fun m hm t ht => ?_, fun t ht => ?_⟩
  · rw [hperm.nodup_iff]
    refine hmarked.nodup.map_on fun l hl l' hl' heq => ?_
    exact hinjective l (hmentioned l hl) l' (hmentioned l' hl') heq
  · obtain ⟨i, hi, hlowers⟩ := exists_of_mem_right h hm
    obtain ⟨p, hp, hrelated⟩ := hlowers.operand
    obtain ⟨l, hl, hresolved⟩ := exists_of_mem_right hrelated.targets ht
    have htarget : l ∈ i.operand.targets := by
      rw [Operand.targets, hp]
      exact hl
    rw [hperm.mem_iff, s.eq_of_resolved hresolved]
    exact List.mem_map_of_mem (hmarked.marked i hi l htarget)
  · obtain ⟨l, hl, rfl⟩ := List.mem_map.1 (hperm.mem_iff.1 ht)
    exact hlt l (hmentioned l hl)

/-- A label of a lowered stream comes from one of the code. -/
theorem exists_resolved_of_lowersTo (h : List.Forall₂ (LowersTo s) code stream) {t : NativeLabel}
    (ht : t ∈ labelsOf stream) : ∃ l ∈ mentioned code, s.Resolved l t := by
  obtain ⟨m, hm, ht⟩ := List.mem_flatMap.1 ht
  obtain ⟨i, hi, hlowers⟩ := exists_of_mem_right h hm
  rcases List.mem_append.1 ht with ht | ht
  · obtain ⟨ts, hts, hsort⟩ := hlowers.labels
    rw [hsort, (NativeLabel.perm_sort ts).mem_iff] at ht
    obtain ⟨l, hl, hresolved⟩ := exists_of_mem_right hts ht
    exact ⟨l, List.mem_flatMap.2 ⟨i, hi, List.mem_append_left _ hl⟩, hresolved⟩
  · obtain ⟨p, hp, hrelated⟩ := hlowers.operand
    obtain ⟨l, hl, hresolved⟩ := exists_of_mem_right hrelated.targets ht
    refine ⟨l, List.mem_flatMap.2 ⟨i, hi, List.mem_append_right _ ?_⟩, hresolved⟩
    rw [Operand.targets, hp]
    exact hl

/-- A label of lifted code is made for one of the stream. -/
theorem exists_given_of_liftsTo {s : Lifting} (h : List.Forall₂ (LiftsTo s) stream code) {l : Label}
    (hl : l ∈ mentioned code) : ∃ t ∈ labelsOf stream, s.Given t l := by
  obtain ⟨i, hi, hl⟩ := List.mem_flatMap.1 hl
  obtain ⟨m, hm, hlifts⟩ := exists_of_mem_right h hi
  rcases List.mem_append.1 hl with hl | hl
  · obtain ⟨ls, hls, hset⟩ := hlifts.labels
    rw [hset, Label.mem_setOf] at hl
    obtain ⟨t, ht, hgiven⟩ := exists_of_mem_right hls hl
    exact ⟨t, List.mem_flatMap.2 ⟨m, hm, List.mem_append_left _ ht⟩, hgiven⟩
  · obtain ⟨p, hp, hrelated⟩ := hlifts.operand
    rw [Operand.targets, hp] at hl
    obtain ⟨t, ht, hgiven⟩ := exists_of_mem_right hrelated.targets hl
    exact ⟨t, List.mem_flatMap.2 ⟨m, hm, List.mem_append_right _ ht⟩, hgiven⟩

/-- Lifting fixes labels to the native labels of the stream, each to its own. -/
theorem fixedBelow_of_liftsTo {s : Lifting} (hs : s.Sound)
    (h : List.Forall₂ (LiftsTo s) stream code) (hlt : ∀ t ∈ labelsOf stream, t.number < n) :
    FixedBelow n (mentioned code) := by
  have hgiven : ∀ l ∈ mentioned code, ∀ t, l.fixed? = some t → t ∈ labelsOf stream ∧
      s.Given t l := by
    intro l hl t ht
    obtain ⟨t', ht', hgiven⟩ := exists_given_of_liftsTo h hl
    have hfixed : l.fixed? = some t' := hs hgiven
    rw [ht, Option.some.injEq] at hfixed
    subst hfixed
    exact ⟨ht', hgiven⟩
  refine ⟨fun l hl t ht => hlt t (hgiven l hl t ht).1, fun l hl l' hl' t ht ht' => ?_⟩
  exact Option.some.inj ((hgiven l hl t ht).2.symm.trans (hgiven l' hl' t ht').2)

/-- The labels of code that was read are free. -/
theorem free_of_decode {μ : Type} [Metadata μ] {metadata : μ} {body : Body} {supply : LabelSupply}
    {labels : PositionLabels} (h : body.decode metadata supply = (.ok code, labels)) :
    ∀ l ∈ mentioned code, l.fixed? = none := by
  obtain ⟨ss, -, hsound, -, hreadAs⟩ := readAs_of_decode h
  intro l hl
  obtain ⟨i, hi, hl⟩ := List.mem_flatMap.1 hl
  obtain ⟨scanned, -, hread⟩ := exists_of_mem_right hreadAs hi
  rcases List.mem_append.1 hl with hl | hl
  · rw [hread.labels, Option.mem_toList] at hl
    exact (hsound.handedOut hl).1
  · obtain ⟨p, hp, hrelated⟩ := hread.operand
    rw [Operand.targets, hp] at hl
    obtain ⟨k, -, hnamed⟩ := exists_of_mem_right hrelated.targets hl
    exact (hsound.handedOut hnamed.2.2).1

end

end Instruction

end MethodWeave
