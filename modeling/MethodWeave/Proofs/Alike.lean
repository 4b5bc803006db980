import MethodWeave.Proofs.Code.Related
import MethodWeave.Proofs.Outcome
/-!
Two runs of computations that carry a state.

The runs begin in states that are related, and whatever the first gives the second gives too, up to
a relation of the results; the states are related again afterwards.  Of steps that cannot fail this
is said by `StepsAlike`, and of the successes of computations that may fail by `RunsAlike`.  If
moreover the second fails as the first does, they match (`RunsMatch`).  The laws are those of the
constructs that computations are made of.
-/

namespace MethodWeave

variable {σ ε ε' α α' β β' γ γ' τ τ' υ υ' : Type}

/-- From states related by `Q` the steps give results related by `R`, and leave states related by
`Q`. -/
def StepsAlike (Q : σ → σ → Prop) (R : α → β → Prop) (x : StateM σ α) (y : StateM σ β) : Prop :=
  ∀ s s', Q s s' → R (x s).1 (y s').1 ∧ Q (x s).2 (y s').2

/-- What the first computation gives, the second gives up to `R`, from any state related by `Q`; the
states that they leave are related by `Q`. -/
def RunsAlike (Q : σ → σ → Prop) (R : α → β → Prop) (x : ExceptT ε (StateM σ) α)
    (y : ExceptT ε' (StateM σ) β) : Prop :=
  ∀ s s' a t, Q s s' → x.run s = (.ok a, t) → ∃ b t', y.run s' = (.ok b, t') ∧ R a b ∧ Q t t'

variable {Q : σ → σ → Prop} {R : α → β → Prop} {S : γ → γ' → Prop}

/-! ### Steps -/

namespace StepsAlike

theorem of_pure {a : α} {b : β} (h : R a b) :
    StepsAlike Q R (pure a : StateM σ α) (pure b : StateM σ β) :=
  fun _ _ hs => ⟨h, hs⟩

theorem bind {x : StateM σ α} {y : StateM σ β} {f : α → StateM σ γ} {g : β → StateM σ γ'}
    (h : StepsAlike Q R x y) (hfg : ∀ a b, R a b → StepsAlike Q S (f a) (g b)) :
    StepsAlike Q S (x >>= f) (y >>= g) := by
  intro s s' hs
  obtain ⟨hR, hQ⟩ := h s s' hs
  exact hfg _ _ hR _ _ hQ

variable {P : α → α' → Prop} {T : β → β' → Prop}

theorem mapM {f : α → StateM σ β} {g : α' → StateM σ β'}
    (h : ∀ a a', P a a' → StepsAlike Q T (f a) (g a')) {as : List α} {as' : List α'}
    (has : List.Forall₂ P as as') : StepsAlike Q (List.Forall₂ T) (as.mapM f) (as'.mapM g) := by
  induction has with
  | nil => exact of_pure .nil
  | cons ha _ ih =>
    rw [List.mapM_cons, List.mapM_cons]
    exact (h _ _ ha).bind fun _ _ hb => ih.bind fun _ _ hbs => of_pure (.cons hb hbs)

theorem mapTargets {P : τ → τ' → Prop} {T : υ → υ' → Prop} {f : τ → StateM σ υ}
    {g : τ' → StateM σ υ'} (h : ∀ t t', P t t' → StepsAlike Q T (f t) (g t')) {p : Payload τ}
    {p' : Payload τ'} (hp : Payload.Related P p p') :
    StepsAlike Q (Payload.Related T) (p.mapTargetsM f) (p'.mapTargetsM g) := by
  cases hp with
  | label ht => exact (h _ _ ht).bind fun _ _ hu => of_pure (.label hu)
  | labels hts => exact (mapM h hts).bind fun _ _ hus => of_pure (.labels hus)
  | _ => exact of_pure (by constructor)

end StepsAlike

/-! ### Runs that may fail -/

namespace RunsAlike

theorem of_pure {a : α} {b : β} (h : R a b) :
    RunsAlike Q R (pure a : ExceptT ε (StateM σ) α) (pure b : ExceptT ε' (StateM σ) β) := by
  intro s s' a' t hs hrun
  obtain ⟨rfl, rfl⟩ := run_pure_eq_ok_iff.1 hrun
  exact ⟨b, s', rfl, h, hs⟩

/-- A computation that fails is like any other, as far as successes go. -/
theorem of_bind_throw {x : ExceptT ε (StateM σ) γ} {e : ε} {y : ExceptT ε' (StateM σ) β} :
    RunsAlike Q R (x >>= fun _ => throw e : ExceptT ε (StateM σ) α) y := by
  intro s s' a t _ hrun
  obtain ⟨_, _, _, hrun⟩ := run_bind_eq_ok_iff.1 hrun
  cases hrun

theorem of_except {x : Except ε α} {y : Except ε' β}
    (h : ∀ a, x = .ok a → ∃ b, y = .ok b ∧ R a b) :
    RunsAlike Q R (liftM x : ExceptT ε (StateM σ) α) (liftM y : ExceptT ε' (StateM σ) β) := by
  intro s s' a t hs hrun
  have hrun : (x, s) = (.ok a, t) := hrun
  rw [Prod.mk.injEq] at hrun
  obtain ⟨b, hy, hR⟩ := h a hrun.1
  refine ⟨b, s', ?_, hR, hrun.2 ▸ hs⟩
  show (y, s') = _
  rw [hy]

theorem of_get :
    RunsAlike Q Q (get : ExceptT ε (StateM σ) σ) (get : ExceptT ε' (StateM σ) σ) := by
  intro s s' a t hs hrun
  cases hrun
  exact ⟨s', s', rfl, hs, hs⟩

theorem of_modify {f g : σ → σ} (h : ∀ s s', Q s s' → Q (f s) (g s')) :
    RunsAlike Q (fun _ _ => True) (modify f : ExceptT ε (StateM σ) PUnit)
      (modify g : ExceptT ε' (StateM σ) PUnit) := by
  intro s s' a t hs hrun
  cases hrun
  exact ⟨⟨⟩, g s', rfl, trivial, h s s' hs⟩

/-- What a failure is taken for does not matter. -/
theorem adapt {ε₁ ε₂ : Type} {x : ExceptT ε (StateM σ) α} {y : ExceptT ε' (StateM σ) β}
    (h : RunsAlike Q R x y) (f : ε → ε₁) (g : ε' → ε₂) :
    RunsAlike Q R (ExceptT.adapt f x) (ExceptT.adapt g y) := by
  intro s s' a t hs hrun
  have hx : x.run s = (.ok a, t) := by
    have hrun : ((x.run s).1.mapError f, (x.run s).2) = (.ok a, t) := hrun
    rw [Prod.mk.injEq, mapError_eq_ok_iff] at hrun
    exact Prod.ext hrun.1 hrun.2
  obtain ⟨b, t', hy, hR, hQ⟩ := h s s' a t hs hx
  refine ⟨b, t', ?_, hR, hQ⟩
  show ((y.run s').1.mapError g, (y.run s').2) = _
  rw [hy]
  rfl

theorem bind {x : ExceptT ε (StateM σ) α} {y : ExceptT ε' (StateM σ) β}
    {f : α → ExceptT ε (StateM σ) γ} {g : β → ExceptT ε' (StateM σ) γ'} (h : RunsAlike Q R x y)
    (hfg : ∀ a b, R a b → RunsAlike Q S (f a) (g b)) : RunsAlike Q S (x >>= f) (y >>= g) := by
  intro s s' c t hs hrun
  obtain ⟨a, s₁, hx, hf⟩ := run_bind_eq_ok_iff.1 hrun
  obtain ⟨b, s₁', hy, hR, hQ⟩ := h s s' a s₁ hs hx
  obtain ⟨c', t', hg, hS, hQ'⟩ := hfg a b hR s₁ s₁' c t hQ hf
  exact ⟨c', t', run_bind_eq_ok_iff.2 ⟨b, s₁', hy, hg⟩, hS, hQ'⟩

end RunsAlike

/-! ### Failures -/

/-- Answers related by `R`, or the same failure. -/
inductive Matches (R : α → β → Prop) : Except ε α → Except ε β → Prop
  | ok {a : α} {b : β} : R a b → Matches R (.ok a) (.ok b)
  | error (e : ε) : Matches R (.error e) (.error e)

namespace Matches

theorem imp {R' : α → β → Prop} {x : Except ε α} {y : Except ε β} (h : Matches R x y)
    (himp : ∀ a b, R a b → R' a b) : Matches R' x y := by
  cases h with
  | ok hab => exact .ok (himp _ _ hab)
  | error e => exact .error e

theorem map {x : Except ε α} {y : Except ε β} (h : Matches R x y) {f : α → γ} {g : β → γ'}
    (hfg : ∀ a b, R a b → S (f a) (g b)) : Matches S (x.map f) (y.map g) := by
  cases h with
  | ok hab => exact .ok (hfg _ _ hab)
  | error e => exact .error e

theorem mapError {x : Except ε α} {y : Except ε β} (h : Matches R x y) (f : ε → ε') :
    Matches R (x.mapError f) (y.mapError f) := by
  cases h with
  | ok hab => exact .ok hab
  | error e => exact .error (f e)

theorem eq {x y : Except ε α} (h : Matches (· = ·) x y) : x = y := by
  cases h with
  | ok hab => rw [hab]
  | error e => rfl

end Matches

/-- From states related by `Q` the computations give results that match, and leave states related by
`Q`. -/
def RunsMatch (Q : σ → σ → Prop) (R : α → β → Prop) (x : ExceptT ε (StateM σ) α)
    (y : ExceptT ε (StateM σ) β) : Prop :=
  StepsAlike Q (Matches R) x.run y.run

namespace RunsMatch

theorem imp {R' : α → β → Prop} {x : ExceptT ε (StateM σ) α} {y : ExceptT ε (StateM σ) β}
    (h : RunsMatch Q R x y) (himp : ∀ a b, R a b → R' a b) : RunsMatch Q R' x y := by
  intro s s' hs
  obtain ⟨hR, hQ⟩ := h s s' hs
  exact ⟨hR.imp himp, hQ⟩

/-- Computations that match are alike. -/
theorem alike {x : ExceptT ε (StateM σ) α} {y : ExceptT ε (StateM σ) β} (h : RunsMatch Q R x y) :
    RunsAlike Q R x y := by
  intro s s' a t hs hrun
  obtain ⟨hR, hQ⟩ := h s s' hs
  rw [show x.run s = (.ok a, t) from hrun] at hR hQ
  generalize y.run s' = outcome at hR hQ
  obtain ⟨result, t'⟩ := outcome
  cases hR with
  | ok hab => exact ⟨_, t', rfl, hab, hQ⟩

theorem of_pure {a : α} {b : β} (h : R a b) :
    RunsMatch Q R (pure a : ExceptT ε (StateM σ) α) (pure b : ExceptT ε (StateM σ) β) :=
  fun _ _ hs => ⟨.ok h, hs⟩

theorem of_throw (e : ε) :
    RunsMatch Q R (throw e : ExceptT ε (StateM σ) α) (throw e : ExceptT ε (StateM σ) β) :=
  fun _ _ hs => ⟨.error e, hs⟩

theorem of_steps {x : StateM σ α} {y : StateM σ β} (h : StepsAlike Q R x y) :
    RunsMatch Q R (liftM x : ExceptT ε (StateM σ) α) (liftM y : ExceptT ε (StateM σ) β) := by
  intro s s' hs
  obtain ⟨hR, hQ⟩ := h s s' hs
  exact ⟨.ok hR, hQ⟩

theorem of_except {x : Except ε α} {y : Except ε β} (h : Matches R x y) :
    RunsMatch Q R (liftM x : ExceptT ε (StateM σ) α) (liftM y : ExceptT ε (StateM σ) β) :=
  fun _ _ hs => ⟨h, hs⟩

theorem of_get :
    RunsMatch Q Q (get : ExceptT ε (StateM σ) σ) (get : ExceptT ε (StateM σ) σ) :=
  fun _ _ hs => ⟨.ok hs, hs⟩

theorem of_modify {f g : σ → σ} (h : ∀ s s', Q s s' → Q (f s) (g s')) :
    RunsMatch Q (fun _ _ => True) (modify f : ExceptT ε (StateM σ) PUnit)
      (modify g : ExceptT ε (StateM σ) PUnit) :=
  fun s s' hs => ⟨.ok trivial, h s s' hs⟩

theorem adapt {x : ExceptT ε (StateM σ) α} {y : ExceptT ε (StateM σ) β} (h : RunsMatch Q R x y)
    (f : ε → ε') : RunsMatch Q R (ExceptT.adapt f x) (ExceptT.adapt f y) := by
  intro s s' hs
  obtain ⟨hR, hQ⟩ := h s s' hs
  exact ⟨hR.mapError f, hQ⟩

theorem bind {x : ExceptT ε (StateM σ) α} {y : ExceptT ε (StateM σ) β}
    {f : α → ExceptT ε (StateM σ) γ} {g : β → ExceptT ε (StateM σ) γ'} (h : RunsMatch Q R x y)
    (hfg : ∀ a b, R a b → RunsMatch Q S (f a) (g b)) : RunsMatch Q S (x >>= f) (y >>= g) := by
  intro s s' hs
  obtain ⟨hR, hQ⟩ := h s s' hs
  rw [run_bind, run_bind]
  generalize x.run s = outcome, y.run s' = outcome' at hR hQ
  obtain ⟨result, t⟩ := outcome
  obtain ⟨result', t'⟩ := outcome'
  cases hR with
  | ok hab => exact hfg _ _ hab t t' hQ
  | error e => exact ⟨.error e, hQ⟩

variable {P : α → α' → Prop} {T : β → β' → Prop}

theorem mapM {f : α → ExceptT ε (StateM σ) β} {g : α' → ExceptT ε (StateM σ) β'}
    (h : ∀ a a', P a a' → RunsMatch Q T (f a) (g a')) {as : List α} {as' : List α'}
    (has : List.Forall₂ P as as') : RunsMatch Q (List.Forall₂ T) (as.mapM f) (as'.mapM g) := by
  induction has with
  | nil => exact of_pure .nil
  | cons ha _ ih =>
    rw [List.mapM_cons, List.mapM_cons]
    exact (h _ _ ha).bind fun _ _ hb => ih.bind fun _ _ hbs => of_pure (.cons hb hbs)

theorem mapTargets {P : τ → τ' → Prop} {T : υ → υ' → Prop} {f : τ → ExceptT ε (StateM σ) υ}
    {g : τ' → ExceptT ε (StateM σ) υ'} (h : ∀ t t', P t t' → RunsMatch Q T (f t) (g t'))
    {p : Payload τ} {p' : Payload τ'} (hp : Payload.Related P p p') :
    RunsMatch Q (Payload.Related T) (p.mapTargetsM f) (p'.mapTargetsM g) := by
  cases hp with
  | label ht => exact (h _ _ ht).bind fun _ _ hu => of_pure (.label hu)
  | labels hts => exact (mapM h hts).bind fun _ _ hus => of_pure (.labels hus)
  | _ => exact of_pure (by constructor)

end RunsMatch

end MethodWeave
