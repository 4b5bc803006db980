import MethodWeave.Code.Payload
import MethodWeave.Proofs.Outcome
/-!
Which errors a computation may end with.

`FailsOnly P x` says that `x` fails, if it does, with an error in `P`; `SameUpTo kind x y`, that `x`
and `y` are the same answer or errors of one kind.  The laws are those of the constructs that
computations are made of, first for plain ones and then for ones that carry a state.
-/

namespace MethodWeave

variable {ε σ α β τ υ : Type} {P Q : ε → Prop}

/-- If the computation fails, then with an error in `P`. -/
def FailsOnly (P : ε → Prop) (x : Except ε α) : Prop := ∀ e, x = .error e → P e

namespace FailsOnly

theorem of_ok (a : α) : FailsOnly P (.ok a) := nofun

theorem of_error {e : ε} (h : P e) : FailsOnly P (.error e : Except ε α) := by
  rintro _ ⟨⟩
  exact h

theorem bind {x : Except ε α} {f : α → Except ε β} (hx : FailsOnly P x)
    (hf : ∀ a, FailsOnly P (f a)) : FailsOnly P (x >>= f) := by
  cases x with
  | error e => exact of_error (hx e rfl)
  | ok a => exact hf a

theorem map {x : Except ε α} (hx : FailsOnly P x) (f : α → β) : FailsOnly P (x.map f) := by
  cases x with
  | error e => exact of_error (hx e rfl)
  | ok a => exact of_ok _

theorem imp {x : Except ε α} (hx : FailsOnly P x) (hPQ : ∀ e, P e → Q e) : FailsOnly Q x :=
  fun e he => hPQ e (hx e he)

theorem mapError {ε' : Type} {R : ε' → Prop} {f : ε → ε'} (h : ∀ e, R (f e)) (x : Except ε α) :
    FailsOnly R (x.mapError f) := by
  cases x with
  | error e => exact of_error (h e)
  | ok a => exact of_ok a

theorem mapM {f : α → Except ε β} {as : List α} (hf : ∀ a ∈ as, FailsOnly P (f a)) :
    FailsOnly P (as.mapM f) := by
  induction as with
  | nil => exact of_ok _
  | cons a as ih =>
    obtain ⟨ha, has⟩ := List.forall_mem_cons.1 hf
    rw [List.mapM_cons]
    exact ha.bind fun _ => (ih has).bind fun _ => of_ok _

theorem ite {c : Prop} [Decidable c] {x y : Except ε α} (hx : FailsOnly P x) (hy : FailsOnly P y) :
    FailsOnly P (if c then x else y) := by
  split
  · exact hx
  · exact hy

/-! ### Computations that carry a state -/

theorem run_bind {x : ExceptT ε (StateM σ) α} {f : α → ExceptT ε (StateM σ) β}
    (hx : ∀ s, FailsOnly P (x.run s).1) (hf : ∀ a s, FailsOnly P ((f a).run s).1) (s : σ) :
    FailsOnly P ((x >>= f).run s).1 := by
  have hfirst := hx s
  rw [MethodWeave.run_bind]
  generalize x.run s = outcome at hfirst
  obtain ⟨e | a, s₁⟩ := outcome
  · exact of_error (hfirst e rfl)
  · exact hf a s₁

theorem run_pure (a : α) (s : σ) : FailsOnly P ((pure a : ExceptT ε (StateM σ) α).run s).1 :=
  of_ok a

theorem run_mapM {f : α → ExceptT ε (StateM σ) β} (hf : ∀ a s, FailsOnly P ((f a).run s).1)
    (as : List α) (s : σ) : FailsOnly P ((as.mapM f).run s).1 := by
  induction as generalizing s with
  | nil => exact run_pure _ s
  | cons a as ih =>
    rw [List.mapM_cons]
    exact run_bind (hf a) (fun _ => run_bind ih fun _ => run_pure _) s

theorem run_mapTargets {f : τ → ExceptT ε (StateM σ) υ} (hf : ∀ t s, FailsOnly P ((f t).run s).1)
    (p : Payload τ) (s : σ) : FailsOnly P ((p.mapTargetsM f).run s).1 := by
  cases p with
  | label t => exact run_bind (hf t) (fun _ => run_pure _) s
  | labels ts => exact run_bind (run_mapM hf ts) (fun _ => run_pure _) s
  | _ => exact run_pure _ s

end FailsOnly

/-! ### Errors of one kind -/

variable {κ : Type} {kind : ε → κ}

/-- Two computations give the same, or they both fail, with errors of one kind. -/
inductive SameUpTo (kind : ε → κ) : Except ε α → Except ε α → Prop
  | ok (a : α) : SameUpTo kind (.ok a) (.ok a)
  | error {e e' : ε} : kind e' = kind e → SameUpTo kind (.error e) (.error e')

namespace SameUpTo

theorem refl (x : Except ε α) : SameUpTo kind x x := by
  cases x with
  | error e => exact .error rfl
  | ok a => exact .ok a

theorem bind {x y : Except ε α} {f g : α → Except ε β} (h : SameUpTo kind x y)
    (hfg : ∀ a, SameUpTo kind (f a) (g a)) : SameUpTo kind (x >>= f) (y >>= g) := by
  cases h with
  | ok a => exact hfg a
  | error h => exact .error h

theorem map {x y : Except ε α} (h : SameUpTo kind x y) (f : α → β) :
    SameUpTo kind (x.map f) (y.map f) := by
  cases h with
  | ok a => exact .ok (f a)
  | error h => exact .error h

theorem mapError {ε' κ' : Type} {kind' : ε' → κ'} {x y : Except ε α} (h : SameUpTo kind x y)
    {f : ε → ε'} (hf : ∀ e e', kind e' = kind e → kind' (f e') = kind' (f e)) :
    SameUpTo kind' (x.mapError f) (y.mapError f) := by
  cases h with
  | ok a => exact .ok a
  | error h => exact .error (hf _ _ h)

theorem mapM {α' : Type} {f : α → Except ε β} {g : α' → Except ε β} {as : List α} {as' : List α'}
    (h : List.Forall₂ (fun a a' => SameUpTo kind (f a) (g a')) as as') :
    SameUpTo kind (as.mapM f) (as'.mapM g) := by
  induction h with
  | nil => exact .ok []
  | cons ha _ ih =>
    rw [List.mapM_cons, List.mapM_cons]
    exact ha.bind fun _ => ih.bind fun _ => .ok _

/-- What the first gives the second gives. -/
theorem eq_ok {x y : Except ε α} (h : SameUpTo kind x y) {a : α} (hx : x = .ok a) : y = .ok a := by
  cases h with
  | ok b => exact hx
  | error h => cases hx

end SameUpTo

end MethodWeave
