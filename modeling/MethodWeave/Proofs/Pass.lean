import Mathlib.Algebra.GroupWithZero.Nat
import MethodWeave.Proofs.Code.Related
import MethodWeave.Proofs.Outcome
/-!
Passes over lists that carry a state which only grows.

A step of such a pass lets the state grow, and settles something between its input and its outcome
that no later growth undoes.  So once a list has been passed over, all of it is settled in the last
state.  There are two kinds of step, those that may fail (`TryStep`) and those that may not
(`Step`); both extend from one entry to a list and from one jump target to a payload.  So does a
bound on what steps add to a counter.
-/

namespace MethodWeave

variable {σ ε α β τ υ : Type}

/-- How the states of a pass grow. -/
structure Growth (σ : Type) where
  le : σ → σ → Prop
  refl : ∀ s, le s s
  trans : ∀ {a b c}, le a b → le b c → le a c

namespace Growth

/-- A step that does not fail: the state grows, and what it settles stays settled. -/
structure Step (g : Growth σ) (R : σ → α → β → Prop) (f : α → StateM σ β) : Prop where
  keep : ∀ {s s' a b}, g.le s s' → R s a b → R s' a b
  run : ∀ a s, g.le s (f a s).2 ∧ R (f a s).2 a (f a s).1

/-- A step that may fail, with the same said of its successes on inputs in `D`. -/
structure TryStep (g : Growth σ) (D : α → Prop) (R : σ → α → β → Prop)
    (f : α → ExceptT ε (StateM σ) β) : Prop where
  keep : ∀ {s s' a b}, g.le s s' → R s a b → R s' a b
  run : ∀ {a s b s'}, D a → (f a).run s = (.ok b, s') → g.le s s' ∧ R s' a b

end Growth

namespace Growth

variable {g : Growth σ} {D : α → Prop} {R : σ → α → β → Prop}

theorem Step.mapM {f : α → StateM σ β} (h : g.Step R f) :
    g.Step (fun s => List.Forall₂ (R s)) (List.mapM f) where
  keep hle := fun hR => hR.imp fun _ _ => h.keep hle
  run := by
    intro as
    induction as with
    | nil => exact fun s => ⟨g.refl s, .nil⟩
    | cons a as ih =>
      intro s
      obtain ⟨hle, hR⟩ := h.run a s
      obtain ⟨hles, hRs⟩ := ih (f a s).2
      rw [List.mapM_cons]
      exact ⟨g.trans hle hles, .cons (h.keep hles hR) hRs⟩

theorem TryStep.mapM {f : α → ExceptT ε (StateM σ) β} (h : g.TryStep D R f) :
    g.TryStep (fun as => ∀ a ∈ as, D a) (fun s => List.Forall₂ (R s)) (List.mapM f) where
  keep hle := fun hR => hR.imp fun _ _ => h.keep hle
  run := by
    intro as
    induction as with
    | nil =>
      intro s bs s' _ hrun
      obtain ⟨rfl, rfl⟩ := run_pure_eq_ok_iff.1 hrun
      exact ⟨g.refl s, .nil⟩
    | cons a as ih =>
      intro s bs s' hD hrun
      obtain ⟨hDa, hDas⟩ := List.forall_mem_cons.1 hD
      simp only [List.mapM_cons, run_bind_eq_ok_iff, run_pure_eq_ok_iff] at hrun
      obtain ⟨b, s₁, hb, bs', s₂, hbs, rfl, rfl⟩ := hrun
      obtain ⟨hle, hR⟩ := h.run hDa hb
      obtain ⟨hles, hRs⟩ := ih hDas hbs
      exact ⟨g.trans hle hles, .cons (h.keep hles hR) hRs⟩

/-- A step over jump targets is one over payloads. -/
theorem Step.mapTargets {R : σ → τ → υ → Prop} {f : τ → StateM σ υ} (h : g.Step R f) :
    g.Step (fun s => Payload.Related (R s)) (Payload.mapTargetsM f) where
  keep hle := fun hR => hR.imp fun _ _ => h.keep hle
  run := by
    intro p s
    cases p with
    | label t => exact ⟨(h.run t s).1, .label (h.run t s).2⟩
    | labels ts => exact ⟨(h.mapM.run ts s).1, .labels (h.mapM.run ts s).2⟩
    | _ => exact ⟨g.refl s, by constructor⟩

theorem TryStep.mapTargets {D : τ → Prop} {R : σ → τ → υ → Prop}
    {f : τ → ExceptT ε (StateM σ) υ} (h : g.TryStep D R f) :
    g.TryStep (fun p => ∀ t ∈ p.targets, D t) (fun s => Payload.Related (R s))
      (Payload.mapTargetsM f) where
  keep hle := fun hR => hR.imp fun _ _ => h.keep hle
  run := by
    intro p s q s' hD hrun
    cases p with
    | label t =>
      simp only [Payload.mapTargetsM, run_bind_eq_ok_iff, run_pure_eq_ok_iff] at hrun
      obtain ⟨u, s₁, hu, rfl, rfl⟩ := hrun
      obtain ⟨hle, hR⟩ := h.run (hD t (List.mem_singleton.2 rfl)) hu
      exact ⟨hle, .label hR⟩
    | labels ts =>
      simp only [Payload.mapTargetsM, run_bind_eq_ok_iff, run_pure_eq_ok_iff] at hrun
      obtain ⟨us, s₁, hus, rfl, rfl⟩ := hrun
      obtain ⟨hle, hR⟩ := h.mapM.run hD hus
      exact ⟨hle, .labels hR⟩
    | _ =>
      obtain ⟨rfl, rfl⟩ := run_pure_eq_ok_iff.1 hrun
      exact ⟨g.refl s, by constructor⟩

end Growth

/-! ### Counters -/

section

variable (count : σ → Nat)

/-- A bound on what a step adds to a counter adds up along a list. -/
theorem count_mapM_le {f : α → StateM σ β} {weight : α → Nat}
    (h : ∀ a s, count (f a s).2 ≤ count s + weight a) (as : List α) (s : σ) :
    count (as.mapM f s).2 ≤ count s + (as.map weight).sum := by
  induction as generalizing s with
  | nil => exact Nat.le_refl _
  | cons a as ih =>
    have hfirst := h a s
    have hrest := ih (f a s).2
    rw [List.mapM_cons, List.map_cons, List.sum_cons]
    change count (as.mapM f (f a s).2).2 ≤ _
    omega

/-- Steps that count one at most count no more than the list has entries. -/
theorem count_mapM_le_length {f : α → StateM σ β} (h : ∀ a s, count (f a s).2 ≤ count s + 1)
    (as : List α) (s : σ) : count (as.mapM f s).2 ≤ count s + as.length := by
  have hcount := count_mapM_le count h as s
  rwa [List.map_const', List.sum_replicate_nat, Nat.mul_one] at hcount

/-- A bound adds up for steps that may fail, too, as long as they succeed. -/
theorem count_mapM_le_of_ok {f : α → ExceptT ε (StateM σ) β} {weight : α → Nat}
    (h : ∀ {a s b s'}, (f a).run s = (.ok b, s') → count s' ≤ count s + weight a) {as : List α}
    {s s' : σ} {bs : List β} (hrun : (as.mapM f).run s = (.ok bs, s')) :
    count s' ≤ count s + (as.map weight).sum := by
  induction as generalizing s bs with
  | nil =>
    obtain ⟨-, rfl⟩ := run_pure_eq_ok_iff.1 hrun
    exact Nat.le_refl _
  | cons a as ih =>
    simp only [List.mapM_cons, run_bind_eq_ok_iff, run_pure_eq_ok_iff] at hrun
    obtain ⟨b, s₁, hb, bs', s₂, hbs, rfl, rfl⟩ := hrun
    have hfirst := h hb
    have hrest := ih hbs
    rw [List.map_cons, List.sum_cons]
    omega

/-- A step that counts one jump target at most counts as many as a payload has. -/
theorem count_mapTargets_le {f : τ → StateM σ υ} (h : ∀ t s, count (f t s).2 ≤ count s + 1)
    (p : Payload τ) (s : σ) : count (p.mapTargetsM f s).2 ≤ count s + p.targets.length := by
  cases p with
  | label t => exact h t s
  | labels ts => exact count_mapM_le_length count h ts s
  | _ => exact Nat.le_refl _

theorem count_mapTargets_le_of_ok {f : τ → ExceptT ε (StateM σ) υ}
    (h : ∀ {t s u s'}, (f t).run s = (.ok u, s') → count s' ≤ count s + 1) {p : Payload τ}
    {s s' : σ} {q : Payload υ} (hrun : (p.mapTargetsM f).run s = (.ok q, s')) :
    count s' ≤ count s + p.targets.length := by
  cases p with
  | label t =>
    simp only [Payload.mapTargetsM, run_bind_eq_ok_iff, run_pure_eq_ok_iff] at hrun
    obtain ⟨u, s₁, hu, -, rfl⟩ := hrun
    exact h hu
  | labels ts =>
    simp only [Payload.mapTargetsM, run_bind_eq_ok_iff, run_pure_eq_ok_iff] at hrun
    obtain ⟨us, s₁, hus, -, rfl⟩ := hrun
    have hlist := count_mapM_le_of_ok count h hus
    rw [List.map_const', List.sum_replicate_nat, Nat.mul_one] at hlist
    exact hlist
  | _ =>
    obtain ⟨-, rfl⟩ := run_pure_eq_ok_iff.1 hrun
    exact Nat.le_refl _

end

/-! ### Success -/

/-- A computation that succeeds from every state. -/
def Succeeds (x : ExceptT ε (StateM σ) α) : Prop := ∀ s, ∃ a s', x.run s = (.ok a, s')

theorem Succeeds.mapM {f : α → ExceptT ε (StateM σ) β} {as : List α}
    (h : ∀ a ∈ as, Succeeds (f a)) : Succeeds (as.mapM f) := by
  induction as with
  | nil => exact fun s => ⟨[], s, rfl⟩
  | cons a as ih =>
    obtain ⟨ha, has⟩ := List.forall_mem_cons.1 h
    intro s
    obtain ⟨b, s₁, hb⟩ := ha s
    obtain ⟨bs, s₂, hbs⟩ := ih has s₁
    refine ⟨b :: bs, s₂, ?_⟩
    simp only [List.mapM_cons, run_bind_eq_ok_iff, run_pure_eq_ok_iff]
    exact ⟨b, s₁, hb, bs, s₂, hbs, rfl, rfl⟩

theorem Succeeds.mapTargets {f : τ → ExceptT ε (StateM σ) υ} {p : Payload τ}
    (h : ∀ t ∈ p.targets, Succeeds (f t)) : Succeeds (p.mapTargetsM f) := by
  intro s
  cases p with
  | label t =>
    obtain ⟨u, s', hu⟩ := h t (List.mem_singleton.2 rfl) s
    refine ⟨.label u, s', ?_⟩
    simp only [Payload.mapTargetsM, run_bind_eq_ok_iff, run_pure_eq_ok_iff]
    exact ⟨u, s', hu, rfl, rfl⟩
  | labels ts =>
    obtain ⟨us, s', hus⟩ := Succeeds.mapM h s
    refine ⟨.labels us, s', ?_⟩
    simp only [Payload.mapTargetsM, run_bind_eq_ok_iff, run_pure_eq_ok_iff]
    exact ⟨us, s', hus, rfl, rfl⟩
  | _ => exact ⟨_, s, rfl⟩

end MethodWeave
