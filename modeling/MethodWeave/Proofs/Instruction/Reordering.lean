import Mathlib.Data.Finset.Card
import MethodWeave.Host.Module
import MethodWeave.Proofs.Alike
import MethodWeave.Proofs.Instruction.Lowering
import MethodWeave.Proofs.Native.Relabelling
/-!
Lowering in any order of the labels of an instruction.

The labels that mark an instruction are a set, and the order in which lowering comes upon them
settles which native label each gets.  But it gives out the same native labels to all of them
together (`Resolving`).  So two passes in different orders settle the same labels and hand out as
many native ones, and they disagree only on labels that mark an instruction (`AlikeBut`); where each
label marks one instruction, that instruction has the same native labels in both.  Main result:
`encode_unnumbered`, what is encoded depends neither on the order nor on the numbers of native
labels.
-/

namespace MethodWeave

namespace Lowering

/-! ### Resolving several labels -/

/-- The numbers of the free labels that are not settled yet. -/
def freshIds (s : Lowering) (ls : List Label) : Finset Nat :=
  ((ls.filter fun l => l.fixed?.isNone).map (·.id)).toFinset.filter fun k =>
    (s.targets.get? k).isNone

theorem mem_freshIds {s : Lowering} {ls : List Label} {k : Nat} :
    k ∈ s.freshIds ls ↔ (∃ l ∈ ls, l.fixed? = none ∧ l.id = k) ∧ s.targets.get? k = none := by
  simp [freshIds, and_assoc]

/-- What becomes of the labels of a list, and of the state of the pass.  It does not matter in which
order they stand in the list. -/
structure Resolving (s : Lowering) (ls : List Label) (ts : List NativeLabel) (s' : Lowering) :
    Prop where
  locals : s'.generator.locals = s.generator.locals
  next : s'.generator.nextLabel = s.generator.nextLabel + (s.freshIds ls).card
  kept : ∀ k ∉ s.freshIds ls, s'.targets.get? k = s.targets.get? k
  settled : ∀ k ∈ s.freshIds ls, s'.targets.get? k ≠ none
  mem : ∀ t, t ∈ ts ↔ (∃ l ∈ ls, l.fixed? = some t) ∨
    (∃ l ∈ ls, l.fixed? = none ∧ s.targets.get? l.id = some t) ∨
    (s.generator.nextLabel ≤ t.number ∧ t.number < s'.generator.nextLabel)

theorem Resolving.nil (s : Lowering) : Resolving s [] [] s where
  locals := rfl
  next := rfl
  kept _ _ := rfl
  settled k hk := by simp [mem_freshIds] at hk
  mem t := by
    simp only [List.not_mem_nil, false_and, exists_false, false_or, false_iff, not_and, not_lt]
    exact id

section

variable {s s₁ s' : Lowering} {l : Label} {ls : List Label} {t : NativeLabel}
  {ts : List NativeLabel}

/-- A label that is settled changes nothing. -/
theorem Resolving.cons_settled
    (hl : l.fixed? = some t ∨ l.fixed? = none ∧ s.targets.get? l.id = some t)
    (h : Resolving s ls ts s') : Resolving s (l :: ls) (t :: ts) s' := by
  have hfresh : s.freshIds (l :: ls) = s.freshIds ls := by
    ext k
    simp only [mem_freshIds, List.exists_mem_cons_iff]
    grind
  refine ⟨h.locals, hfresh ▸ h.next, hfresh ▸ h.kept, hfresh ▸ h.settled, fun t' => ?_⟩
  simp only [List.mem_cons, h.mem]
  grind

/-- Any other label gets the next native label. -/
theorem Resolving.cons_new (hfixed : l.fixed? = none) (hnone : s.targets.get? l.id = none)
    (hlocals : s₁.generator.locals = s.generator.locals)
    (hnext : s₁.generator.nextLabel = s.generator.nextLabel + 1)
    (htargets : s₁.targets = s.targets.insert l.id ⟨s.generator.nextLabel⟩)
    (h : Resolving s₁ ls ts s') :
    Resolving s (l :: ls) (⟨s.generator.nextLabel⟩ :: ts) s' := by
  have hget (k : Nat) : s₁.targets.get? k =
      if k = l.id then some ⟨s.generator.nextLabel⟩ else s.targets.get? k := by
    rw [htargets, KeyMap.get?_insert]
  -- the label is settled from here on, so it is not counted again
  have hnot : l.id ∉ s₁.freshIds ls := by
    rw [mem_freshIds, hget, if_pos rfl]
    exact fun h => nomatch h.2
  have hfresh : s.freshIds (l :: ls) = insert l.id (s₁.freshIds ls) := by
    ext k
    simp only [mem_freshIds, List.exists_mem_cons_iff, Finset.mem_insert, hget]
    grind
  refine ⟨h.locals.trans hlocals, ?_, fun k hk => ?_, fun k hk => ?_, fun t => ?_⟩
  · rw [h.next, hnext, hfresh, Finset.card_insert_of_notMem hnot, Nat.add_right_comm, Nat.add_assoc]
  · rw [hfresh, Finset.mem_insert, not_or] at hk
    rw [h.kept k hk.2, hget, if_neg hk.1]
  · rcases Finset.mem_insert.1 (hfresh ▸ hk) with rfl | hk
    · rw [h.kept _ hnot, hget, if_pos rfl]
      exact nofun
    · exact h.settled k hk
  · have hlt : s.generator.nextLabel < s'.generator.nextLabel := by
      rw [h.next]
      omega
    -- a target is the one of this label or that of a later one
    rw [List.mem_cons, h.mem]
    simp only [hget]
    obtain ⟨number⟩ := t
    constructor
    · rintro (⟨⟨⟩⟩ | ⟨k, hk, ht⟩ | ⟨k, hk, hfree, ht⟩ | hrange)
      · exact Or.inr (Or.inr ⟨Nat.le_refl _, hlt⟩)
      · exact Or.inl ⟨k, List.mem_cons_of_mem l hk, ht⟩
      · split at ht
        · cases ht
          exact Or.inr (Or.inr ⟨Nat.le_refl _, hlt⟩)
        · exact Or.inr (Or.inl ⟨k, List.mem_cons_of_mem l hk, hfree, ht⟩)
      · exact Or.inr (Or.inr ⟨by omega, hrange.2⟩)
    · rintro (⟨k, hk, ht⟩ | ⟨k, hk, hfree, ht⟩ | hrange)
      · rcases List.mem_cons.1 hk with rfl | hk
        · rw [hfixed] at ht
          cases ht
        · exact Or.inr (Or.inl ⟨k, hk, ht⟩)
      · rcases List.mem_cons.1 hk with rfl | hk
        · rw [hnone] at ht
          cases ht
        · refine Or.inr (Or.inr (Or.inl ⟨k, hk, hfree, ?_⟩))
          rw [if_neg fun heq => by rw [heq, hnone] at ht; cases ht]
          exact ht
      · rcases Nat.eq_or_lt_of_le hrange.1 with heq | hlt
        · exact Or.inl (congrArg NativeLabel.mk heq.symm)
        · exact Or.inr (Or.inr (Or.inr ⟨by simp only at hlt ⊢; omega, hrange.2⟩))

end

/-- **Resolving several labels** settles each of them, and those that were not settled get the next
native labels. -/
theorem resolving_mapM (ls : List Label) (s : Lowering) :
    Resolving s ls (ls.mapM (m := StateM Lowering) resolve s).1
      (ls.mapM (m := StateM Lowering) resolve s).2 := by
  induction ls generalizing s with
  | nil => exact .nil s
  | cons l ls ih =>
    have hrun : (l :: ls).mapM (m := StateM Lowering) resolve s =
        ((resolve l s).1 :: (ls.mapM (m := StateM Lowering) resolve (resolve l s).2).1,
          (ls.mapM (m := StateM Lowering) resolve (resolve l s).2).2) := by
      rw [List.mapM_cons]
      rfl
    rw [hrun]
    cases hfixed : l.fixed? with
    | some t =>
      rw [resolve_fixed hfixed]
      exact (ih s).cons_settled (Or.inl hfixed)
    | none =>
      cases hget : s.targets.get? l.id with
      | some t =>
        rw [resolve_of_get? hfixed hget]
        exact (ih s).cons_settled (Or.inr ⟨hfixed, hget⟩)
      | none =>
        simp only [resolve, hfixed, hget]
        refine Resolving.cons_new hfixed hget ?_ ?_ ?_ (ih _) <;> rfl

/-! ### Passes that agree but for some labels -/

/-- The passes have settled the same labels and handed out as many native ones, and they agree on
what free labels resolve to, but for those in `marks`. -/
structure AlikeBut (marks : List Label) (s s' : Lowering) : Prop where
  locals : s'.generator.locals = s.generator.locals
  next : s'.generator.nextLabel = s.generator.nextLabel
  settled : ∀ k, s'.targets.get? k = none ↔ s.targets.get? k = none
  targets : ∀ l : Label, l.fixed? = none → l ∉ marks →
    s'.targets.get? l.id = s.targets.get? l.id

namespace AlikeBut

variable {marks marks' ls ls' : List Label} {s s' : Lowering}

theorem refl (s : Lowering) : AlikeBut [] s s := ⟨rfl, rfl, fun _ => Iff.rfl, fun _ _ _ => rfl⟩

theorem symm (h : AlikeBut marks s s') : AlikeBut marks s' s :=
  ⟨h.locals.symm, h.next.symm, fun k => (h.settled k).symm, fun l hl hm => (h.targets l hl hm).symm⟩

theorem mono (h : AlikeBut marks s s') (hsub : marks ⊆ marks') : AlikeBut marks' s s' :=
  ⟨h.locals, h.next, h.settled, fun l hl hm => h.targets l hl fun hmem => hm (hsub hmem)⟩

/-- One label resolved in both passes leaves them as alike as they were. -/
theorem stepsAlike_resolve (marks : List Label) (l : Label) :
    StepsAlike (AlikeBut marks) (fun _ _ => True) (resolve l) (resolve l) := by
  intro s s' h
  refine ⟨trivial, ?_⟩
  cases hfixed : l.fixed? with
  | some t =>
    rw [resolve_fixed hfixed, resolve_fixed hfixed]
    exact h
  | none =>
    cases hget : s.targets.get? l.id with
    | some t =>
      obtain ⟨t', hget'⟩ := Option.ne_none_iff_exists'.1 fun hnone =>
        absurd ((h.settled l.id).1 hnone) (by rw [hget]; exact nofun)
      rw [resolve_of_get? hfixed hget, resolve_of_get? hfixed hget']
      exact h
    | none =>
      -- the label gets the next native label in both passes
      simp only [resolve, hfixed, hget, (h.settled l.id).2 hget, defineLabel,
        Generator.defineLabel, h.next]
      refine ⟨h.locals, rfl, fun k => ?_, fun k hk hmarks => ?_⟩
      · rw [KeyMap.get?_insert, KeyMap.get?_insert]
        split
        · exact Iff.rfl
        · exact h.settled k
      · rw [KeyMap.get?_insert, KeyMap.get?_insert, h.targets k hk hmarks]

/-- Settled for one pass, settled for the other. -/
theorem freshIds_eq (h : AlikeBut marks s s') (hperm : ls.Perm ls') :
    s'.freshIds ls' = s.freshIds ls := by
  ext k
  simp only [mem_freshIds, h.settled k, hperm.mem_iff]

/-- What the passes agree on resolves to one native label. -/
theorem eq_of_resolved (h : AlikeBut marks s s') {l : Label} (hl : l ∉ marks) {x x' : NativeLabel}
    (hx : s.Resolved l x) (hx' : s'.Resolved l x') : x' = x := by
  cases hfixed : l.fixed? with
  | some target =>
    simp only [Resolved, hfixed] at hx hx'
    rw [hx, hx']
  | none =>
    simp only [Resolved, hfixed] at hx hx'
    rw [h.targets l hfixed hl, hx] at hx'
    exact (Option.some.inj hx').symm

/-- Labels resolved in any order leave the passes as alike as they were, but for these labels. -/
theorem mapM_resolve (h : AlikeBut marks s s') (hperm : ls.Perm ls') :
    AlikeBut (ls ++ marks) (ls.mapM (m := StateM Lowering) resolve s).2
      (ls'.mapM (m := StateM Lowering) resolve s').2 := by
  have hone := resolving_mapM ls s
  have htwo := resolving_mapM ls' s'
  have hfresh := h.freshIds_eq hperm
  refine ⟨?_, ?_, fun k => ?_, fun l hl hmarks => ?_⟩
  · rw [htwo.locals, hone.locals, h.locals]
  · rw [htwo.next, hone.next, h.next, hfresh]
  · by_cases hk : k ∈ s.freshIds ls
    · exact iff_of_false (htwo.settled k (hfresh ▸ hk)) (hone.settled k hk)
    · rw [htwo.kept k (hfresh ▸ hk), hone.kept k hk, h.settled k]
  · obtain ⟨hnot, hmarks⟩ := not_or.1 (List.mem_append.not.1 hmarks)
    have hk : l.id ∉ s.freshIds ls := by
      rw [mem_freshIds]
      rintro ⟨⟨k, hk, hfree, hid⟩, -⟩
      refine hnot ?_
      rwa [show l = k from by cases l; cases k; simp_all]
    rw [htwo.kept _ (hfresh ▸ hk), hone.kept _ hk, h.targets l hl hmarks]

/-- Together, they get the same native labels, if the passes agree on all of them. -/
theorem mem_mapM_resolve (h : AlikeBut marks s s') (hperm : ls.Perm ls')
    (hnew : ∀ l ∈ ls, l ∉ marks) (t : NativeLabel) :
    t ∈ (ls'.mapM (m := StateM Lowering) resolve s').1 ↔
      t ∈ (ls.mapM (m := StateM Lowering) resolve s).1 := by
  have hone := resolving_mapM ls s
  have htwo := resolving_mapM ls' s'
  have hnext := (h.mapM_resolve hperm).next
  have hold : (∃ l ∈ ls', l.fixed? = none ∧ s'.targets.get? l.id = some t) ↔
      ∃ l ∈ ls, l.fixed? = none ∧ s.targets.get? l.id = some t := by
    refine exists_congr fun l => ?_
    rw [hperm.mem_iff]
    refine and_congr_right fun hl => and_congr_right fun hfree => ?_
    rw [h.targets l hfree (hnew l (hperm.mem_iff.2 hl))]
  rw [htwo.mem, hone.mem, hold, hnext, h.next]
  simp only [hperm.mem_iff]

end AlikeBut

end Lowering

/-! ### Instructions -/

namespace Instruction

open Lowering (AlikeBut)

/-- The same instruction, with the labels that mark it in another order. -/
structure Reordered (i i' : Instruction) : Prop where
  opcode : i'.opcode = i.opcode
  operand : i'.operand = i.operand
  markers : i'.markers = i.markers
  labels : i.labels.Perm i'.labels

theorem Reordered.symm {i i' : Instruction} (h : i.Reordered i') : i'.Reordered i :=
  ⟨h.opcode.symm, h.operand.symm, h.markers.symm, h.labels.symm⟩

variable {marks : List Label} {s s' t : Lowering}

/-- Lowering an instruction in either order leaves the passes as alike as they were, but for its
labels; and if they agree on these, the native instructions have the same labels. -/
theorem lower_reordered {i i' : Instruction} {n : NativeInstruction} (hi : i.Reordered i')
    (hs : AlikeBut marks s s') (h : i.lower.run s = (.ok n, t)) :
    ∃ n' t', i'.lower.run s' = (.ok n', t') ∧ AlikeBut (i.labels ++ marks) t t' ∧
      ((∀ l ∈ i.labels, l ∉ marks) → ∀ x, x ∈ n'.labels ↔ x ∈ n.labels) := by
  obtain ⟨p, operand, s₁, labels, hp, hoperand, hlabels, rfl⟩ := run_lower_eq_ok_iff.1 h
  have hp' : i'.operand.payload? = some p := by rw [hi.operand, hp]
  have hresolve (l l' : Label) (heq : l = l') : StepsAlike (AlikeBut marks) (fun _ _ => True)
      (Lowering.resolve l) (Lowering.resolve l') :=
    heq ▸ AlikeBut.stepsAlike_resolve marks l
  obtain ⟨-, hs₁⟩ := StepsAlike.mapTargets hresolve (Payload.Related.refl p) s s' hs
  rw [hoperand] at hs₁
  have ht := hs₁.mapM_resolve hi.labels
  have hmem := hs₁.mem_mapM_resolve hi.labels
  rw [hlabels] at ht hmem
  refine ⟨_, _, run_lower_eq_ok_iff.2 ⟨p, _, _, _, hp', rfl, rfl, rfl⟩, ht, fun hnew x => ?_⟩
  rw [(NativeLabel.perm_sort _).mem_iff, (NativeLabel.perm_sort _).mem_iff]
  exact hmem hnew x

/-- The same of a list: where each label marks one instruction, that instruction has the same native
labels in either order. -/
theorem lowerAll_reordered {is is' : List Instruction} {stream : List NativeInstruction}
    (his : List.Forall₂ Reordered is is') (hs : AlikeBut marks s s')
    (h : (lowerAll is).run s = (.ok stream, t)) :
    ∃ stream' t', (lowerAll is').run s' = (.ok stream', t') ∧
      AlikeBut (is.flatMap (·.labels) ++ marks) t t' ∧
      ((is.flatMap (·.labels)).Nodup → (∀ l ∈ is.flatMap (·.labels), l ∉ marks) →
        List.Forall₂ (fun n n' => ∀ x, x ∈ n'.labels ↔ x ∈ n.labels) stream stream') := by
  unfold lowerAll at h ⊢
  -- the marks of the instructions behind are kept apart from those met so far
  induction his generalizing marks s s' t stream with
  | nil =>
    obtain ⟨rfl, rfl⟩ := run_pure_eq_ok_iff.1 h
    exact ⟨[], s', rfl, hs, fun _ _ => .nil⟩
  | @cons i i' is is' hi _ ih =>
    simp only [List.mapM_cons, run_bind_eq_ok_iff, run_pure_eq_ok_iff] at h ⊢
    obtain ⟨n, t₁, hn, rest, t₂, hrest, rfl, rfl⟩ := h
    obtain ⟨n', t₁', hn', ht₁, hmem⟩ := lower_reordered hi hs hn
    obtain ⟨rest', t₂', hrest', ht₂, hmems⟩ := ih ht₁ hrest
    refine ⟨n' :: rest', t₂', ⟨n', t₁', hn', rest', t₂', hrest', rfl, rfl⟩, ht₂.mono ?_,
      fun hnodup hnew => ?_⟩
    · intro l
      simp only [List.flatMap_cons, List.mem_append]
      tauto
    · simp only [List.flatMap_cons, List.nodup_append, List.mem_append] at hnodup hnew
      obtain ⟨-, hnodup, hapart⟩ := hnodup
      refine .cons (hmem fun l hl => hnew l (Or.inl hl)) (hmems hnodup fun l hl hmarks => ?_)
      rcases List.mem_append.1 hmarks with hmark | hmarks
      · exact hapart l hmark l hl rfl
      · exact hnew l (Or.inr hl) hmarks

/-! ### Streams -/

/-- What marks two places is lowered to what marks two places. -/
theorem nodup_of_lowersTo {is : List Instruction} {stream : List NativeInstruction}
    (h : List.Forall₂ (LowersTo t) is stream) (hnodup : (stream.flatMap (·.labels)).Nodup) :
    (is.flatMap (·.labels)).Nodup :=
  .of_map (fun l => (t.resolve l).1) ((perm_labels_of_lowersTo h).nodup_iff.1 hnodup)

end Instruction

/-- In a stream in which each label marks one instruction, labels of one instruction have its
place. -/
theorem placeOf?_eq_of_mem {stream : List NativeInstruction}
    (hnodup : (stream.flatMap (·.labels)).Nodup) {n : NativeInstruction} (hn : n ∈ stream)
    {x y : NativeLabel} (hx : x ∈ n.labels) (hy : y ∈ n.labels) :
    placeOf? stream x = placeOf? stream y := by
  have hone {m : NativeInstruction} (hm : m ∈ stream) {z : NativeLabel} (hz : z ∈ n.labels)
      (hzm : z ∈ m.labels) : m = n := by
    obtain ⟨i, hi⟩ := List.mem_iff_getElem?.1 hm
    obtain ⟨j, hj⟩ := List.mem_iff_getElem?.1 hn
    obtain rfl := index_eq_of_nodup_flatMap hnodup hi hj hzm hz
    exact Option.some.inj (hi.symm.trans hj)
  refine findIdx?_eq_of_forall₂ (List.forall₂_same.2 fun m hm => ?_)
  rw [decide_eq_decide]
  exact ⟨fun h => hone hm hx h ▸ hy, fun h => hone hm hy h ▸ hx⟩

/-- Where the instructions of two streams have the same labels, these have the same places. -/
theorem placeOf?_eq_of_same {stream stream' : List NativeInstruction}
    (h : List.Forall₂ (fun n n' => ∀ x, x ∈ n'.labels ↔ x ∈ n.labels) stream stream')
    (x : NativeLabel) : placeOf? stream' x = placeOf? stream x :=
  findIdx?_eq_of_forall₂ (h.imp fun _ _ hn => decide_eq_decide.2 (hn x))

/-- Where they have the same labels and as many, no label marks two places of the second stream if
none does of the first. -/
theorem nodup_of_same {stream stream' : List NativeInstruction}
    (h : List.Forall₂ (fun n n' => (∀ x, x ∈ n'.labels ↔ x ∈ n.labels) ∧
      n'.labels.length = n.labels.length) stream stream')
    (hnodup : (stream.flatMap (·.labels)).Nodup) : (stream'.flatMap (·.labels)).Nodup := by
  have hperm : List.Forall₂ (fun n n' => n'.labels.Perm n.labels) stream stream' := by
    refine (forall₂_and_mem h).imp fun n n' ⟨hn, _, hsame, hlength⟩ => ?_
    -- as many labels, all of them among the first ones: the same up to order
    have hone : n.labels.Nodup := (List.nodup_flatMap.1 hnodup).1 n hn
    exact ((hone.subperm fun x hx => (hsame x).2 hx).perm_of_length_le (Nat.le_of_eq hlength)).symm
  exact (perm_flatMap_of_forall₂ hperm).nodup_iff.2 hnodup

namespace Instruction

/-- **Lowering in another order relabels the stream.** -/
theorem relabelled_of_reordered {is is' : List Instruction} {stream : List NativeInstruction}
    (his : List.Forall₂ Reordered is is') {s t : Lowering}
    (h : (lowerAll is).run s = (.ok stream, t)) :
    ∃ stream' t', (lowerAll is').run s = (.ok stream', t') ∧
      t'.generator.locals = t.generator.locals ∧ Relabelled stream stream' := by
  obtain ⟨stream', t', hrun, halike, hsame⟩ := lowerAll_reordered his (.refl s) h
  obtain ⟨-, -, hlowers⟩ := lowersTo_of_lowerAll h
  obtain ⟨-, -, hlowers'⟩ := lowersTo_of_lowerAll hrun
  refine ⟨stream', t', hrun, halike.locals, ?_⟩
  -- each native instruction is followed up to its origin, over, and down again
  have halikes : List.Forall₂
      (NativeInstruction.Alike fun x x' => ∃ l, t.Resolved l x ∧ t'.Resolved l x')
      stream stream' := by
    refine (forall₂_comp hlowers.flip (forall₂_comp his hlowers')).imp ?_
    rintro n n' ⟨i, hlower, i', hi, hlower'⟩
    obtain ⟨p, hp, hn⟩ := hlower.operand
    obtain ⟨p', hp', hn'⟩ := hlower'.operand
    rw [hi.operand, hp, Option.some.injEq] at hp'
    subst hp'
    refine ⟨?_, hn.flip.comp hn', ?_⟩
    · rw [hlower'.opcode, hi.opcode, hlower.opcode]
    · rw [hlower'.markers, hi.markers, hlower.markers]
  have hlengths : List.Forall₂ (fun n n' => n'.labels.length = n.labels.length) stream stream' := by
    refine (forall₂_comp hlowers.flip (forall₂_comp his hlowers')).imp ?_
    rintro n n' ⟨i, hlower, i', hi, hlower'⟩
    rw [hlower.perm_labels.length_eq, hlower'.perm_labels.length_eq, List.length_map,
      List.length_map, hi.labels.length_eq]
  -- unless each label marks one instruction, no native stream passes the check of labels
  have hmarks : (stream.flatMap (·.labels)).Nodup → (is.flatMap (·.labels)).Nodup :=
    nodup_of_lowersTo hlowers
  have hmarks' : (stream'.flatMap (·.labels)).Nodup → (is.flatMap (·.labels)).Nodup := fun h =>
    (perm_flatMap_of_forall₂ (his.imp fun _ _ hi => hi.labels.symm)).nodup_iff.1
      (nodup_of_lowersTo hlowers' h)
  have hsames (h : (is.flatMap (·.labels)).Nodup) := hsame h fun _ _ => List.not_mem_nil
  refine ⟨halikes.imp fun n n' hn => hn.imp fun _ _ _ => trivial, ⟨fun h => ?_, fun h => ?_⟩,
    fun h => ?_⟩
  · exact nodup_of_same ((forall₂_and (hsames (hmarks' h)) hlengths).flip.imp fun _ _ hn =>
      ⟨fun x => (hn.1 x).symm, hn.2.symm⟩) h
  · exact nodup_of_same (forall₂_and (hsames (hmarks h)) hlengths) h
  · have hsame := hsames (hmarks h)
    refine halikes.imp fun n n' hn => hn.imp ?_
    rintro x x' ⟨l, hx, hx'⟩
    show placeOf? stream' x' = placeOf? stream x
    rw [← placeOf?_eq_of_same hsame x]
    by_cases hl : l ∈ is.flatMap (·.labels)
    · -- both native labels mark the instruction that the label marks
      obtain ⟨i, hi, hl⟩ := List.mem_flatMap.1 hl
      obtain ⟨j, hj⟩ := List.mem_iff_getElem?.1 hi
      obtain ⟨n, hn, hlower⟩ := exists_getElem?_left hlowers hj
      obtain ⟨i', hj', hreordered⟩ := exists_getElem?_left his hj
      obtain ⟨n', hn', hlower'⟩ := exists_getElem?_left hlowers' hj'
      obtain ⟨_, hfound, hlabels⟩ := exists_getElem?_left hsame hn
      cases hn'.symm.trans hfound
      refine placeOf?_eq_of_mem (nodup_of_same (forall₂_and hsame hlengths) h)
        (List.mem_of_getElem? hn') (hlower'.mem_labels (hreordered.labels.mem_iff.1 hl) hx') ?_
      exact (hlabels x).2 (hlower.mem_labels hl hx)
    · rw [halike.eq_of_resolved (by rwa [List.append_nil]) hx hx']

/-! ### From instructions to a body -/

/-- Lower instructions in a pass and encode them with the generator that goes on from it. -/
def lowerAndEncode {μ : Type} [Metadata μ] (pass : Lowering) (metadata : μ)
    (is : List Instruction) : Except HostError Body × μ :=
  match (lowerAll is).run pass with
  | (.error e, _) => (.error (.instruction e), metadata)
  | (.ok stream, pass) =>
    ((pass.generator.encode stream metadata).1.mapError .encode,
      (pass.generator.encode stream metadata).2)

/-- Only an operand that is not set cannot be lowered. -/
theorem failsOnly_lowerAll (is : List Instruction) (s : Lowering) :
    FailsOnly (fun e => e.kind = "UnsetOperand") ((lowerAll is).run s).1 := by
  refine FailsOnly.run_mapM (fun i s => ?_) is s
  unfold lower
  cases i.operand.payload? with
  | none => exact .of_error rfl
  | some p =>
    exact .run_bind (fun _ => .of_ok _)
      (fun _ => .run_bind (fun _ => .of_ok _) fun _ => .run_pure _) s

/-- **The body does not depend on the order of labels.**  Lowered in the same pass and encoded,
instructions with their labels in another order come to the same body, with the same strings
interned, or fail with an error of the same kind. -/
theorem lowerAndEncode_reordered {μ : Type} [Metadata μ] {is is' : List Instruction}
    (his : List.Forall₂ Reordered is is') (pass : Lowering) (metadata : μ) :
    SameUpTo HostError.kind (lowerAndEncode pass metadata is).1
        (lowerAndEncode pass metadata is').1 ∧
      (lowerAndEncode pass metadata is').2 = (lowerAndEncode pass metadata is).2 := by
  have hfails := failsOnly_lowerAll is pass
  have hfails' := failsOnly_lowerAll is' pass
  unfold lowerAndEncode
  cases hrun : (lowerAll is).run pass with | mk lowered t
  cases hrun' : (lowerAll is').run pass with | mk lowered' t'
  rw [hrun] at hfails
  rw [hrun'] at hfails'
  cases lowered with
  | ok stream =>
    obtain ⟨stream', _, hok, hlocals, hrelabelled⟩ := relabelled_of_reordered his hrun
    cases hrun'.symm.trans hok
    obtain ⟨hbody, hmetadata⟩ := hrelabelled.encode hlocals metadata
    exact ⟨hbody.mapError fun e e' hkind => congrArg ("Encode." ++ ·) hkind, hmetadata⟩
  | error e =>
    cases lowered' with
    | ok stream' =>
      -- what the second order lowers, the first lowers too
      obtain ⟨_, _, hok, -⟩ := relabelled_of_reordered (his.flip.imp fun _ _ hi => hi.symm) hrun'
      cases hrun.symm.trans hok
    | error e' =>
      have hkind : e'.kind = e.kind := (hfails' e' rfl).trans (hfails e rfl).symm
      exact ⟨.error (congrArg ("Ir." ++ ·) hkind), rfl⟩

end Instruction

/-- Assembling a body is lowering in a new pass and encoding. -/
theorem Module.assemble_eq (m : Module) (locals : List TypeRef) (code : List Instruction)
    (journal : Journal) :
    (m.assemble locals code journal).1 = (Instruction.lowerAndEncode
        { generator := .withLocals locals, log := journal.log } m.metadata code).1 ∧
      (m.assemble locals code journal).2.1.metadata = (Instruction.lowerAndEncode
        { generator := .withLocals locals, log := journal.log } m.metadata code).2 := by
  unfold Module.assemble Instruction.lowerAndEncode
  generalize (Instruction.lowerAll code).run _ = outcome
  obtain ⟨lowered, pass⟩ := outcome
  cases lowered <;> exact ⟨rfl, rfl⟩

/-- **What is encoded does not depend on the numbers of labels.**  Instructions whose labels are
lowered in another order, from any state of the pass, and native streams whose labels are renamed
injectively and put into another order, come to the same body and intern the same strings, or fail
with an error of the same kind. -/
theorem encode_unnumbered {μ : Type} [Metadata μ] (metadata : μ) :
    (∀ (pass : Lowering) (is is' : List Instruction),
      List.Forall₂ Instruction.Reordered is is' →
      SameUpTo HostError.kind (Instruction.lowerAndEncode pass metadata is).1
          (Instruction.lowerAndEncode pass metadata is').1 ∧
        (Instruction.lowerAndEncode pass metadata is').2 =
          (Instruction.lowerAndEncode pass metadata is).2) ∧
    ∀ (g : Generator) (ρ : NativeLabel → NativeLabel) (stream stream' : List NativeInstruction),
      Set.InjOn ρ {l | l ∈ labelsOf stream} →
      List.Forall₂ (NativeInstruction.RenamesTo ρ) stream stream' →
      SameUpTo EncodeError.kind (g.encode stream metadata).1 (g.encode stream' metadata).1 ∧
        (g.encode stream' metadata).2 = (g.encode stream metadata).2 :=
  ⟨fun pass _ _ his => Instruction.lowerAndEncode_reordered his pass metadata,
    fun _ _ _ _ hρ h => (relabelled_of_renaming hρ h).encode rfl metadata⟩

/-- An instruction that does nothing with the given labels, and a jump back to it. -/
def twiceMarked (labels : List Label) : List Instruction :=
  [{ opcode := ⟨0x00⟩, operand := .none, labels := labels },
    { opcode := ⟨0x2b⟩, operand := .branchTarget (some ⟨3, none⟩) }]

/-- The same as a native stream. -/
def twiceMarkedStream (labels : List NativeLabel) (target : NativeLabel) : List NativeInstruction :=
  [{ opcode := ⟨0x00⟩, labels := labels }, { opcode := ⟨0x2b⟩, operand := .label target }]

/-- In either order, and under other numbers, the labels come to the same three bytes; the native
streams differ. -/
theorem encode_unnumbered_twiceMarked :
    (Instruction.lowerAndEncode {} ({} : MetadataTables) (twiceMarked [⟨3, none⟩, ⟨5, none⟩])).1 =
        .ok { code := [0x00, 0x2b, 0xfd] } ∧
      (Instruction.lowerAndEncode {} ({} : MetadataTables) (twiceMarked [⟨5, none⟩, ⟨3, none⟩])).1 =
        .ok { code := [0x00, 0x2b, 0xfd] } ∧
      ((Instruction.lowerAll (twiceMarked [⟨3, none⟩, ⟨5, none⟩])).run {}).1 =
        .ok (twiceMarkedStream [⟨0⟩, ⟨1⟩] ⟨0⟩) ∧
      ((Instruction.lowerAll (twiceMarked [⟨5, none⟩, ⟨3, none⟩])).run {}).1 =
        .ok (twiceMarkedStream [⟨0⟩, ⟨1⟩] ⟨1⟩) ∧
      (({} : Generator).encode (twiceMarkedStream [⟨8⟩, ⟨7⟩] ⟨8⟩) ({} : MetadataTables)).1 =
        .ok { code := [0x00, 0x2b, 0xfd] } := by
  obtain ⟨horder, hnames⟩ := encode_unnumbered ({} : MetadataTables)
  refine ⟨rfl, (horder {} (twiceMarked [⟨3, none⟩, ⟨5, none⟩]) _ ?_).1.eq_ok rfl, rfl, rfl,
    (hnames {} (fun l => ⟨l.number + 7⟩) (twiceMarkedStream [⟨0⟩, ⟨1⟩] ⟨1⟩) _ ?_ ?_).1.eq_ok rfl⟩
  · exact .cons ⟨rfl, rfl, rfl, .swap _ _ _⟩ (.cons ⟨rfl, rfl, rfl, .refl _⟩ .nil)
  · intro l _ l' _ heq
    have hnumber : l.number + 7 = l'.number + 7 := congrArg NativeLabel.number heq
    exact congrArg NativeLabel.mk (Nat.add_right_cancel hnumber)
  · exact .cons ⟨⟨rfl, .none, rfl⟩, .swap _ _ _⟩ (.cons ⟨⟨rfl, .label rfl, rfl⟩, .refl _⟩ .nil)

end MethodWeave
