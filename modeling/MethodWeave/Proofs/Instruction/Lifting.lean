import Mathlib.Data.List.Perm.Basic
import MethodWeave.Proofs.Instruction.Decoding
import MethodWeave.Proofs.Instruction.Lowering
/-!
What lifting does to a native stream, and that lowering undoes it.

Lifting makes a fixed label for every native one, and a fixed label resolves to its native label in
whatever pass it is lowered (`Instruction.FixedTo`).  Main results: `liftsTo_of_ofNative`, the
lifted instructions correspond to the native ones; `eq_of_liftsTo`, a lifted instruction is lowered
to where it came from; and `lowerAll_of_ofNative`, lowering does nothing but give the native stream
back.
-/

namespace MethodWeave

namespace Lifting

/-- The native label has been given the label. -/
def Given (s : Lifting) (t : NativeLabel) (l : Label) : Prop := s.labels.get? t.number = some l

/-- Labels are fixed to the native labels that they were made for. -/
def Sound (s : Lifting) : Prop := ∀ {k l}, s.labels.get? k = some l → l.fixed? = some ⟨k⟩

/-- What a pass keeps as it goes on. -/
structure Grows (s s' : Lifting) : Prop where
  sound : s.Sound → s'.Sound
  labels : ∀ {k l}, s.labels.get? k = some l → s'.labels.get? k = some l

def growth : Growth Lifting where
  le := Grows
  refl _ := ⟨id, id⟩
  trans h h' := ⟨h'.sound ∘ h.sound, h'.labels ∘ h.labels⟩

theorem step_label : growth.Step Given label where
  keep hle := hle.labels
  run := by
    intro t s
    cases hget : s.labels.get? t.number with
    | some l =>
      simp only [label, hget]
      exact ⟨growth.refl s, hget⟩
    | none =>
      simp only [label, hget, LabelSupply.fixed]
      refine ⟨⟨fun h k l hk => ?_, KeyMap.get?_insert_of_none hget⟩, KeyMap.get?_insert_self _ _ _⟩
      exact KeyMap.forall_get?_insert (P := fun k l => l.fixed? = some ⟨k⟩) h rfl hk

end Lifting

namespace Instruction

/-- The native instruction has an opcode of the table and an operand that suits it. -/
def Liftable (n : NativeInstruction) : Prop :=
  ∃ info, n.opcode.info? = some info ∧ info.suits n.operand = true

/-- The instruction is what the native one is lifted to. -/
structure LiftsTo (s : Lifting) (n : NativeInstruction) (i : Instruction) : Prop where
  opcode : i.opcode = n.opcode
  operand : ∃ p, i.operand.payload? = some p ∧ Payload.Related s.Given n.operand p
  labels : ∃ ls, List.Forall₂ s.Given n.labels ls ∧ i.labels = Label.setOf ls
  markers : i.markers = n.markers

/-- A payload that suits an opcode is put into its empty operand. -/
theorem loadNative_emptyFor {op : Opcode} {info : Opcode.Info} (hrow : op.info? = some info)
    {payload : Payload NativeLabel} (hsuits : info.suits payload = true) (s : Lifting) :
    Lifting.growth.le s (loadNative (.emptyFor info) payload s).2 ∧
      ∃ p, (loadNative (.emptyFor info) payload s).1.payload? = some p ∧
        Payload.Related (loadNative (.emptyFor info) payload s).2.Given payload p := by
  rcases Operand.accepts_emptyFor hrow hsuits with ⟨rfl, hempty⟩ | haccepts
  · rw [hempty]
    exact ⟨Lifting.growth.refl s, .none, rfl, .none⟩
  · obtain ⟨hle, hrelated⟩ := Lifting.step_label.mapTargets.run payload s
    simp only [loadNative, haccepts, if_true]
    refine ⟨hle, _, ?_, hrelated⟩
    exact Operand.payload?_filled hrow ((hrelated.suits info).symm.trans hsuits)

theorem tryStep_lift : Lifting.growth.TryStep Liftable LiftsTo lift where
  keep := by
    rintro s s' n i hle ⟨hopcode, ⟨p, hp, hrelated⟩, ⟨ls, hls, hset⟩, hmarkers⟩
    exact ⟨hopcode, ⟨p, hp, hrelated.imp fun _ _ => Lifting.step_label.keep hle⟩,
      ⟨ls, hls.imp fun _ _ => Lifting.step_label.keep hle, hset⟩, hmarkers⟩
  run := by
    rintro n s i s' ⟨info, hrow, hsuits⟩ hrun
    simp only [lift, ofOpcode, hrow, run_bind_eq_ok_iff, run_pure_eq_ok_iff] at hrun
    obtain ⟨_, _, hempty, operand, s₁, hoperand, labels, s₂, hlabels, rfl, rfl⟩ := hrun
    cases hempty
    have hoperand' := run_lift_eq_ok_iff.1 hoperand
    have hlabels' := run_lift_eq_ok_iff.1 hlabels
    obtain ⟨hle₁, p, hp, hrelated⟩ := loadNative_emptyFor hrow hsuits s
    obtain ⟨hle₂, hgiven⟩ := Lifting.step_label.mapM.run n.labels s₁
    rw [hoperand'] at hle₁ hp hrelated
    rw [hlabels'] at hle₂ hgiven
    exact ⟨Lifting.growth.trans hle₁ hle₂, rfl,
      ⟨p, hp, hrelated.imp fun _ _ => Lifting.step_label.keep hle₂⟩, ⟨labels, hgiven, rfl⟩, rfl⟩

/-- **Lifting keeps instructions.**  The lifted instructions correspond to the native ones in the
last state of the pass, all of whose labels are fixed. -/
theorem liftsTo_of_ofNative {stream : List NativeInstruction} {supply supply' : LabelSupply}
    {code : List Instruction} (hliftable : ∀ n ∈ stream, Liftable n)
    (h : ofNative stream supply = (.ok code, supply')) :
    ∃ s : Lifting, s.Sound ∧ List.Forall₂ (LiftsTo s) stream code := by
  unfold ofNative at h
  generalize hrun : (liftAll stream).run { supply := supply } = outcome at h
  obtain ⟨result, s⟩ := outcome
  cases h
  obtain ⟨hle, hlifts⟩ := tryStep_lift.mapM.run hliftable hrun
  exact ⟨s, hle.sound nofun, hlifts⟩

/-- Lifting succeeds on instructions that it takes. -/
theorem succeeds_lift {n : NativeInstruction} (h : Liftable n) :
    Succeeds (lift n) := by
  obtain ⟨info, hrow, -⟩ := h
  intro s
  simp only [lift, ofOpcode, hrow, run_bind_eq_ok_iff, run_pure_eq_ok_iff]
  exact ⟨_, _, _, _, rfl, _, _, run_lift_eq_ok_iff.2 rfl, _, _, run_lift_eq_ok_iff.2 rfl, rfl, rfl⟩

theorem exists_ofNative {stream : List NativeInstruction} (h : ∀ n ∈ stream, Liftable n)
    (supply : LabelSupply) : ∃ code supply', ofNative stream supply = (.ok code, supply') := by
  obtain ⟨code, s, hrun⟩ :=
    Succeeds.mapM (fun n hn => succeeds_lift (h n hn)) ({ supply := supply } : Lifting)
  refine ⟨code, s.supply, ?_⟩
  simp only [ofNative, liftAll, hrun]

end Instruction

/-! ### Sets of labels -/

namespace Label

theorem perm_insertInto {l : Label} {ls : List Label} (h : l ∉ ls) :
    (l.insertInto ls).Perm (l :: ls) := by
  induction ls with
  | nil => exact .refl _
  | cons k rest ih =>
    obtain ⟨hk, hrest⟩ := not_or.1 (List.mem_cons.not.1 h)
    rw [insertInto, if_neg hk]
    split
    · exact .refl _
    · exact ((ih hrest).cons k).trans (.swap l k rest)

theorem perm_foldl_insertInto {ls acc : List Label} (h : (ls ++ acc).Nodup) :
    (ls.foldl (fun acc l => l.insertInto acc) acc).Perm (ls ++ acc) := by
  induction ls generalizing acc with
  | nil => exact .refl _
  | cons l rest ih =>
    obtain ⟨hl, hrest⟩ := List.nodup_cons.1 h
    have hacc : (rest ++ l.insertInto acc).Perm (l :: (rest ++ acc)) :=
      ((perm_insertInto fun hmem => hl (List.mem_append_right _ hmem)).append_left rest).trans
        List.perm_middle
    exact (ih (hacc.nodup_iff.2 h)).trans hacc

theorem mem_setOf {l : Label} {ls : List Label} : l ∈ setOf ls ↔ l ∈ ls := by
  have hmem (acc : List Label) :
      l ∈ ls.foldl (fun acc k => k.insertInto acc) acc ↔ l ∈ ls ∨ l ∈ acc := by
    induction ls generalizing acc with
    | nil => simp
    | cons k rest ih =>
      rw [List.foldl_cons, ih, mem_insertInto, List.mem_cons, or_left_comm, or_assoc]
  rw [setOf, hmem]
  simp

/-- The set of different labels. -/
theorem perm_setOf {ls : List Label} (h : ls.Nodup) : (setOf ls).Perm ls := by
  have hempty : (ls ++ []).Nodup := by rwa [List.append_nil]
  have hperm := perm_foldl_insertInto hempty
  rwa [List.append_nil] at hperm

end Label

/-! ### Back down -/

namespace Lowering

variable {ls : List Label} {ts : List NativeLabel}

theorem resolve_eq_pure {l : Label} {t : NativeLabel} (h : l.fixed? = some t) :
    resolve l = (pure t : StateM Lowering NativeLabel) :=
  funext (resolve_fixed h)

/-- Labels that are fixed resolve to their targets, and nothing else happens. -/
theorem mapM_resolve_fixed (h : List.Forall₂ (fun l t => l.fixed? = some t) ls ts) :
    ls.mapM (m := StateM Lowering) resolve = pure ts := by
  induction h with
  | nil => rfl
  | cons hl _ ih =>
    rw [List.mapM_cons, ih, resolve_eq_pure hl]
    rfl

theorem mapTargetsM_resolve_fixed {p : Payload Label} {q : Payload NativeLabel}
    (h : Payload.Related (fun l t => l.fixed? = some t) p q) :
    p.mapTargetsM (m := StateM Lowering) resolve = pure q := by
  cases h with
  | label hl =>
    rw [Payload.mapTargetsM, resolve_eq_pure hl]
    rfl
  | labels hls =>
    rw [Payload.mapTargetsM, mapM_resolve_fixed hls]
    rfl
  | _ => rfl

/-- A label fixed to a native one resolves to it in every pass. -/
theorem resolved_of_fixed {s : Lowering} {l : Label} {t : NativeLabel} (h : l.fixed? = some t) :
    s.Resolved l t := by
  rw [Resolved, h]

end Lowering

namespace Instruction

variable {i : Instruction} {n n' : NativeInstruction}

/-- All labels of the instruction are fixed, and the native one has those they are fixed to. -/
structure FixedTo (i : Instruction) (n : NativeInstruction) : Prop where
  opcode : n.opcode = i.opcode
  operand : ∃ p, i.operand.payload? = some p ∧
    Payload.Related (fun l t => l.fixed? = some t) p n.operand
  labels : ∃ ts, List.Forall₂ (fun l t => l.fixed? = some t) i.labels ts ∧
    n.labels = NativeLabel.sort ts
  markers : n.markers = i.markers

/-- Lowering does nothing but give the native instruction. -/
theorem FixedTo.lower_eq (h : i.FixedTo n) : i.lower = pure n := by
  obtain ⟨hopcode, ⟨p, hp, hoperand⟩, ⟨ts, hts, hlabels⟩, hmarkers⟩ := h
  unfold lower
  simp only [hp, Lowering.mapTargetsM_resolve_fixed hoperand, Lowering.mapM_resolve_fixed hts]
  obtain ⟨opcode, operand, labels, markers⟩ := n
  subst hopcode hlabels hmarkers
  rfl

/-- So does lowering a list. -/
theorem lowerAll_of_fixedTo {is : List Instruction} {stream : List NativeInstruction}
    (h : List.Forall₂ FixedTo is stream) : lowerAll is = pure stream := by
  unfold lowerAll
  induction h with
  | nil => rfl
  | cons hi _ ih =>
    rw [List.mapM_cons, ih, hi.lower_eq]
    rfl

theorem FixedTo.lowersTo (h : i.FixedTo n) (pass : Lowering) : i.LowersTo pass n where
  opcode := h.opcode
  operand := h.operand.imp fun _ hp => ⟨hp.1, hp.2.imp fun _ _ => Lowering.resolved_of_fixed⟩
  labels := h.labels.imp fun _ hts => ⟨hts.1.imp fun _ _ => Lowering.resolved_of_fixed, hts.2⟩
  markers := h.markers

/-- In one pass an instruction is lowered to one native instruction. -/
theorem LowersTo.unique {pass : Lowering} (h : i.LowersTo pass n) (h' : i.LowersTo pass n') :
    n' = n := by
  have hunique {t t' : NativeLabel} : (∃ l, pass.Resolved l t ∧ pass.Resolved l t') → t = t' :=
    fun ⟨_, ht, ht'⟩ => pass.resolved_unique ht ht'
  have hoperand : n.operand = n'.operand := by
    obtain ⟨p, hp, hresolves⟩ := h.operand
    obtain ⟨p', hp', hresolves'⟩ := h'.operand
    rw [hp, Option.some.injEq] at hp'
    subst hp'
    exact ((hresolves.flip.comp hresolves').imp fun _ _ => hunique).eq
  have hlabels : n.labels = n'.labels := by
    obtain ⟨ts, hts, hsort⟩ := h.labels
    obtain ⟨ts', hts', hsort'⟩ := h'.labels
    have heq := (forall₂_comp hts.flip hts').imp fun _ _ => hunique
    rw [List.forall₂_eq_eq_eq] at heq
    rw [hsort, hsort', heq]
  obtain ⟨opcode, operand, labels, markers⟩ := n
  obtain ⟨opcode', operand', labels', markers'⟩ := n'
  obtain rfl : opcode' = opcode := h'.opcode.trans h.opcode.symm
  obtain rfl : markers' = markers := h'.markers.trans h.markers.symm
  obtain rfl : operand = operand' := hoperand
  obtain rfl : labels = labels' := hlabels
  rfl

/-- A lifted instruction has the labels of the native one, if these stand in increasing order and
none of them twice. -/
theorem LiftsTo.fixedTo {s : Lifting} (hs : s.Sound) (h : LiftsTo s n i)
    (hlabels : n.labels.Pairwise (·.number < ·.number)) : i.FixedTo n := by
  have hfixed {t : NativeLabel} {l : Label} (hgiven : s.Given t l) : l.fixed? = some t := hs hgiven
  refine ⟨h.opcode.symm, ?_, ?_, h.markers.symm⟩
  · obtain ⟨p, hp, hgiven⟩ := h.operand
    exact ⟨p, hp, hgiven.flip.imp fun _ _ => hfixed⟩
  · obtain ⟨ls, hls, hset⟩ := h.labels
    have hmarks := hls.flip.imp fun _ _ => hfixed
    -- the native labels differ, so the labels made for them do, and the set has each of them once
    have hnodup : ls.Nodup := by
      have heq : ls.map Label.fixed? = n.labels.map some := by
        rw [← List.forall₂_eq_eq_eq, List.forall₂_map_left_iff, List.forall₂_map_right_iff]
        exact hmarks
      refine List.Nodup.of_map Label.fixed? ?_
      rw [heq]
      refine List.Nodup.map (fun _ _ => Option.some.inj) (hlabels.imp fun hlt heq => ?_)
      rw [heq] at hlt
      exact Nat.lt_irrefl _ hlt
    rw [hset]
    obtain ⟨ts, hts, hperm⟩ := List.perm_comp_forall₂ (Label.perm_setOf hnodup) hmarks
    exact ⟨ts, hts, (NativeLabel.sort_eq_of_perm hperm (hlabels.imp Nat.le_of_lt)).symm⟩

/-- A native instruction with increasing labels is what its lifted form is lowered to. -/
theorem eq_of_liftsTo {s : Lifting} (hs : s.Sound) {pass : Lowering}
    (hlabels : n.labels.Pairwise (·.number < ·.number)) (hlift : LiftsTo s n i)
    (hlower : LowersTo pass i n') : n' = n :=
  ((hlift.fixedTo hs hlabels).lowersTo pass).unique hlower

/-- **Lowering undoes lifting** of a stream with increasing labels: whatever the pass has resolved
and bound before, it gives the stream back and stays as it is. -/
theorem lowerAll_of_ofNative {stream : List NativeInstruction} {code : List Instruction}
    {supply supply' : LabelSupply} (hliftable : ∀ n ∈ stream, Liftable n)
    (hlabels : ∀ n ∈ stream, n.labels.Pairwise (·.number < ·.number))
    (h : ofNative stream supply = (.ok code, supply')) : lowerAll code = pure stream := by
  obtain ⟨s, hs, hlifts⟩ := liftsTo_of_ofNative hliftable h
  refine lowerAll_of_fixedTo ((forall₂_and_mem hlifts.flip).imp fun i n hin => ?_)
  exact hin.2.2.fixedTo hs (hlabels n hin.2.1)

end Instruction

end MethodWeave
