import MethodWeave.Proofs.Instruction.Decoding
/-!
What reading refuses does not depend on the labels that are left.

Two readings of one body hand out different labels, but to the same positions; and only the
positions matter to whether something is refused, and why.  Main result: `decode_error`.
-/

namespace MethodWeave

variable {σ ε α β γ δ : Type}

/-! ### Computations that fail alike -/

/-- Why the computation failed, if it did. -/
def failure? : Except ε α → Option ε
  | .ok _ => none
  | .error e => some e

/-- From states related by `Q`, the computations leave such states, and both succeed or fail for the
same reason. -/
def FailsAlike (Q : σ → σ → Prop) (x : ExceptT ε (StateM σ) α) (y : ExceptT ε (StateM σ) β) : Prop :=
  ∀ s s', Q s s' → Q (x.run s).2 (y.run s').2 ∧ failure? (x.run s).1 = failure? (y.run s').1

namespace FailsAlike

variable {Q : σ → σ → Prop} {x : ExceptT ε (StateM σ) α} {y : ExceptT ε (StateM σ) β}

theorem of_pure (a : α) (b : β) :
    FailsAlike Q (pure a : ExceptT ε (StateM σ) α) (pure b : ExceptT ε (StateM σ) β) :=
  fun _ _ hs => ⟨hs, rfl⟩

theorem of_throw (e : ε) :
    FailsAlike Q (throw e : ExceptT ε (StateM σ) α) (throw e : ExceptT ε (StateM σ) β) :=
  fun _ _ hs => ⟨hs, rfl⟩

theorem bind {f : α → ExceptT ε (StateM σ) γ} {g : β → ExceptT ε (StateM σ) δ}
    (h : FailsAlike Q x y) (hfg : ∀ a b, FailsAlike Q (f a) (g b)) :
    FailsAlike Q (x >>= f) (y >>= g) := by
  intro s s' hs
  obtain ⟨hQ, hfailure⟩ := h s s' hs
  rw [run_bind, run_bind]
  generalize x.run s = outcome, y.run s' = outcome' at hQ hfailure
  obtain ⟨e | a, u⟩ := outcome <;> obtain ⟨e' | b, u'⟩ := outcome'
  · exact ⟨hQ, hfailure⟩
  · cases hfailure
  · cases hfailure
  · exact hfg a b u u' hQ

theorem mapM {f : α → ExceptT ε (StateM σ) β} (h : ∀ a, FailsAlike Q (f a) (f a)) (as : List α) :
    FailsAlike Q (as.mapM f) (as.mapM f) := by
  induction as with
  | nil => exact of_pure _ _
  | cons a as ih =>
    rw [List.mapM_cons]
    exact (h a).bind fun _ _ => ih.bind fun _ _ => of_pure _ _

theorem mapTargets {f : α → ExceptT ε (StateM σ) β} (h : ∀ a, FailsAlike Q (f a) (f a))
    (p : Payload α) : FailsAlike Q (p.mapTargetsM f) (p.mapTargetsM f) := by
  cases p with
  | label t => exact (h t).bind fun _ _ => of_pure _ _
  | labels ts => exact (mapM h ts).bind fun _ _ => of_pure _ _
  | _ => exact of_pure _ _

end FailsAlike

/-! ### Labels at the same positions -/

namespace KeyMap

variable {es es' : List (Nat × α)}

/-- The entries have the same keys. -/
def SameKeys (es es' : List (Nat × α)) : Prop := List.Forall₂ (fun e e' => e.1 = e'.1) es es'

theorem SameKeys.insertEntry (h : SameKeys es es') (key : Nat) (a a' : α) :
    SameKeys (insertEntry key a es) (insertEntry key a' es') := by
  induction h with
  | nil => exact .cons rfl .nil
  | @cons e e' rest rest' hkey hrest ih =>
    obtain ⟨k, b⟩ := e
    obtain ⟨k', b'⟩ := e'
    obtain rfl : k = k' := hkey
    simp only [KeyMap.insertEntry]
    split
    · exact .cons rfl (.cons rfl hrest)
    · split
      · exact .cons rfl hrest
      · exact .cons rfl ih

theorem SameKeys.isSome_lookup (h : SameKeys es es') (key : Nat) :
    (es.lookup key).isSome = (es'.lookup key).isSome := by
  induction h with
  | nil => rfl
  | @cons e e' rest rest' hkey hrest ih =>
    obtain ⟨k, b⟩ := e
    obtain ⟨k', b'⟩ := e'
    obtain rfl : k = k' := hkey
    simp only [List.lookup_cons]
    cases key == k with
    | true => rfl
    | false => exact ih

/-- The first key with a property is the same. -/
theorem SameKeys.find? (h : SameKeys es es') (P : Nat → Bool) :
    (es.find? fun e => P e.1).map (·.1) = (es'.find? fun e => P e.1).map (·.1) := by
  induction h with
  | nil => rfl
  | @cons e e' rest rest' hkey hrest ih =>
    simp only [List.find?_cons, ← hkey]
    cases P e.1 with
    | true => exact congrArg some hkey
    | false => exact ih

end KeyMap

namespace PositionLabels

/-- The same positions have labels. -/
def SamePositions (s s' : PositionLabels) : Prop :=
  KeyMap.SameKeys s.labels.entries s'.labels.entries

theorem failsAlike_target (t : Int) : FailsAlike SamePositions (target t) (target t) := by
  intro s s' hs
  unfold target
  split
  · have hsome : (s.labels.get? t.toNat).isSome = (s'.labels.get? t.toNat).isSome :=
      hs.isSome_lookup t.toNat
    refine ⟨?_, rfl⟩
    show SamePositions (label t.toNat s).2 (label t.toNat s').2
    unfold label
    cases hget : s.labels.get? t.toNat <;> cases hget' : s'.labels.get? t.toNat <;>
      rw [hget, hget'] at hsome
    · exact hs.insertEntry t.toNat _ _
    · cases hsome
    · cases hsome
    · exact hs
  · exact ⟨hs, rfl⟩

end PositionLabels

/-! ### Bodies -/

section

variable {μ : Type} [Metadata μ] {metadata : μ} {body : Body}

theorem failsAlike_instructions :
    FailsAlike PositionLabels.SamePositions (body.instructions metadata)
      (body.instructions metadata) := by
  unfold Body.instructions
  obtain ⟨ss, e?⟩ := body.scan metadata
  refine (FailsAlike.mapM (fun s => ?_) ss).bind fun is is' => ?_
  · exact (FailsAlike.mapTargets PositionLabels.failsAlike_target s.payload).bind fun _ _ =>
      .of_pure _ _
  · cases e? with
    | some e => exact .of_throw e
    | none =>
      intro st st' hst
      have hget (st : PositionLabels) :
          (get : ExceptT InstructionError (StateM PositionLabels) PositionLabels).run st =
            (.ok st, st) := rfl
      have hunattached (offsets : List Nat) :
          firstUnattached? offsets st.labels = firstUnattached? offsets st'.labels :=
        hst.find? fun position => !offsets.contains position
      rw [run_bind, run_bind, hget, hget]
      simp only [hunattached]
      cases firstUnattached? (ss.map (·.offset)) st'.labels with
      | some position => exact ⟨hst, rfl⟩
      | none =>
        simp only
        split <;> exact ⟨hst, rfl⟩

/-- **A body is refused for one reason**, whatever labels are left. -/
theorem decode_error {supply : LabelSupply} {e : InstructionError} {labels : PositionLabels}
    (h : body.decode metadata supply = (.error e, labels)) (supply' : LabelSupply) :
    ∃ labels', body.decode metadata supply' = (.error e, labels') := by
  have halike : FailsAlike PositionLabels.SamePositions (body.instructions metadata)
      (body.instructions metadata) := failsAlike_instructions
  have hfailure := (halike { supply := supply } { supply := supply' } .nil).2
  rw [show (body.instructions metadata).run { supply := supply } = (.error e, labels) from h]
    at hfailure
  show ∃ labels', (body.instructions metadata).run { supply := supply' } = (.error e, labels')
  generalize (body.instructions metadata).run { supply := supply' } = outcome at hfailure
  obtain ⟨e' | out, labels'⟩ := outcome
  · cases hfailure
    exact ⟨labels', rfl⟩
  · cases hfailure

end

end MethodWeave
