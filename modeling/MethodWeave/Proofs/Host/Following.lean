import MethodWeave.Host.Machine
import MethodWeave.Proofs.Outcome
/-!
Executions that end as others do.

`y` follows `x` when, begun with the same native calls recorded, `y` ends as `x` ends and leaves the
same calls recorded.  Log lines and label numbers may differ, and so may the wording of an error,
but not a thrown value.  For some ends of `x`, those in `A`, less is said: `y` has then made the
calls that `x` made, and may have gone on.

Main result: following is kept by running one execution behind another (`FollowedBy.bind`).
-/

namespace MethodWeave

variable {ε α β γ δ : Type}

/-- Both ran out of fuel, or both failed, and threw the same value if one threw a value. -/
inductive Halt.Like : Halt → Halt → Prop
  | outOfFuel : Like .outOfFuel .outOfFuel
  | failed {e e' : ExecError} : (∀ v, e = .thrown v ↔ e' = .thrown v) →
      Like (.failed e) (.failed e')

theorem Halt.Like.refl (h : Halt) : h.Like h := by
  cases h with
  | failed e => exact .failed fun v => Iff.rfl
  | outOfFuel => exact .outOfFuel

/-- Neither of two errors is a thrown value. -/
theorem Halt.Like.of_ne {e e' : ExecError} (h : ∀ v, e ≠ .thrown v) (h' : ∀ v, e' ≠ .thrown v) :
    Halt.Like (.failed e) (.failed e') :=
  .failed fun v => ⟨fun he => absurd he (h v), fun he => absurd he (h' v)⟩

/-! ### Errors that name opcodes -/

/-- Both errors throw the same value, or none does. -/
def ExecError.Like (e e' : ExecError) : Prop := Halt.Like (.failed e) (.failed e')

/-- The relation lets one opcode be named in place of another. -/
structure ExecError.Renames (E : ExecError → ExecError → Prop) (op op' : Opcode) : Prop where
  stackUnderflow : ∀ m, E (.stackUnderflow m op) (.stackUnderflow m op')
  typeMismatch : ∀ m found, E (.typeMismatch m op found) (.typeMismatch m op' found)
  undefinedResult : ∀ m, E (.undefinedResult m op) (.undefinedResult m op')
  badSlot : ∀ m slot, E (.badSlot m op slot) (.badSlot m op' slot)
  unsupported : ∀ m, E (.unsupported m op) (.unsupported m op')
  thrown : ∀ v, E (.thrown v) (.thrown v)

/-- As to thrown values, any opcode may be named for any other. -/
theorem ExecError.Renames.like (op op' : Opcode) : Renames Like op op' where
  stackUnderflow _ := .of_ne nofun nofun
  typeMismatch _ _ := .of_ne nofun nofun
  undefinedResult _ := .of_ne nofun nofun
  badSlot _ _ := .of_ne nofun nofun
  unsupported _ := .of_ne nofun nofun
  thrown _ := .refl _

/-! ### Computations without effects -/

/-- A second answer corresponds to a first one, with errors related by `E`; nothing is said of
errors in `A`. -/
inductive AnswersAs (E : ExecError → ExecError → Prop) (A : Halt → Prop) (R : α → β → Prop) :
    Except ExecError α → Except ExecError β → Prop
  | ok {a : α} {b : β} : R a b → AnswersAs E A R (.ok a) (.ok b)
  | error {e e' : ExecError} : E e e' → AnswersAs E A R (.error e) (.error e')
  | astray {e : ExecError} (y : Except ExecError β) : A (.failed e) → AnswersAs E A R (.error e) y

section

variable {E : ExecError → ExecError → Prop} {A : Halt → Prop} {R : α → β → Prop} {S : γ → δ → Prop}

theorem AnswersAs.bind {x : Except ExecError α} {y : Except ExecError β}
    {f : α → Except ExecError γ} {g : β → Except ExecError δ} (h : AnswersAs E A R x y)
    (hfg : ∀ a b, R a b → AnswersAs E A S (f a) (g b)) : AnswersAs E A S (x >>= f) (y >>= g) := by
  cases h with
  | ok hR => exact hfg _ _ hR
  | error hE => exact .error hE
  | astray y hA => exact .astray _ hA

/-- What is known of the first answer may be added. -/
theorem AnswersAs.and_ok {P : α → Prop} {x : Except ExecError α} {y : Except ExecError β}
    (h : AnswersAs E A R x y) (hP : ∀ a, x = .ok a → P a) :
    AnswersAs E A (fun a b => R a b ∧ P a) x y := by
  cases h with
  | ok hR => exact .ok ⟨hR, hP _ rfl⟩
  | error hE => exact .error hE
  | astray y hA => exact .astray y hA

/-- The same answer twice, errors being worded differently at most. -/
theorem AnswersAs.mapError {x : Except ε α} {f f' : ε → ExecError} (hf : ∀ e, E (f e) (f' e)) :
    AnswersAs E A (· = ·) (x.mapError f) (x.mapError f') := by
  cases x with
  | ok a => exact .ok rfl
  | error e => exact .error (hf e)

end

/-! ### Executions -/

/-- A second end corresponds to a first one: with the same calls recorded, or with more calls if the
first is in `A`. -/
inductive EndsAs (A : Halt → Prop) (R : α → β → Prop) :
    Except Halt α × Trace → Except Halt β × Trace → Prop
  | ok {a : α} {b : β} {u u' : Trace} : R a b → u'.calls = u.calls →
      EndsAs A R (.ok a, u) (.ok b, u')
  | halted {h h' : Halt} {u u' : Trace} : h.Like h' → u'.calls = u.calls →
      EndsAs A R (.error h, u) (.error h', u')
  | astray {h : Halt} {u : Trace} {y : Except Halt β × Trace} : A h → u.calls <+: y.2.calls →
      EndsAs A R (.error h, u) y

/-- The execution `y` follows the execution `x`. -/
def FollowedBy (A : Halt → Prop) (R : α → β → Prop) (x : ExecM α) (y : ExecM β) : Prop :=
  ∀ t t' : Trace, t'.calls = t.calls → EndsAs A R (x.run t) (y.run t')

/-- The execution forgets none of the calls recorded before it. -/
def OnlyAdds (x : ExecM α) : Prop := ∀ t : Trace, t.calls <+: (x.run t).2.calls

section

variable {x : ExecM α} {y : ExecM β} {A : Halt → Prop} {R : α → β → Prop}

theorem OnlyAdds.bind {f : α → ExecM β} (h : OnlyAdds x) (hf : ∀ a, OnlyAdds (f a)) :
    OnlyAdds (x >>= f) := by
  intro t
  have hx := h t
  rw [run_bind]
  generalize x.run t = outcome at hx
  rcases outcome with ⟨e | a, u⟩
  · exact hx
  · exact hx.trans (hf a u)

theorem onlyAdds_pure (a : α) : OnlyAdds (pure a) := fun t => t.calls.prefix_refl

theorem onlyAdds_throw (h : Halt) : OnlyAdds (throw h : ExecM α) := fun t => t.calls.prefix_refl

theorem onlyAdds_ofExcept (a : Except ExecError α) : OnlyAdds (ExecM.ofExcept a) := by
  cases a with
  | ok a => exact onlyAdds_pure a
  | error e => exact onlyAdds_throw _

theorem ExecM.eq_ok_of_run_ofExcept {a : Except ExecError α} {b : α} {t u : Trace}
    (h : (ExecM.ofExcept a).run t = (.ok b, u)) : a = .ok b := by
  cases a with
  | ok a => cases h; rfl
  | error e => cases h

/-- Only the calls recorded matter to whether something is added. -/
theorem OnlyAdds.modify_bind {F : Trace → Trace} (hF : ∀ t, (F t).calls = t.calls)
    (h : OnlyAdds x) : OnlyAdds (modify F >>= fun _ => x) := by
  intro t
  have := h (F t)
  rw [hF] at this
  exact this

theorem FollowedBy.mono {A' : Halt → Prop} {R' : α → β → Prop} (h : FollowedBy A R x y)
    (hA : ∀ e, A e → A' e) (hR : ∀ a b, R a b → R' a b) : FollowedBy A' R' x y := by
  intro t t' ht
  have hend := h t t' ht
  generalize x.run t = outcome, y.run t' = outcome' at hend
  cases hend with
  | ok hab hcalls => exact .ok (hR _ _ hab) hcalls
  | halted hlike hcalls => exact .halted hlike hcalls
  | astray hA' hprefix => exact .astray (hA _ hA') hprefix

/-- What is known of every result may be added. -/
theorem FollowedBy.and_result {P : α → Prop} (h : FollowedBy A R x y)
    (hP : ∀ t a u, x.run t = (.ok a, u) → P a) : FollowedBy A (fun a b => R a b ∧ P a) x y := by
  intro t t' ht
  have hend := h t t' ht
  generalize hx : x.run t = outcome, y.run t' = outcome' at hend
  cases hend with
  | ok hR hcalls => exact .ok ⟨hR, hP _ _ _ hx⟩ hcalls
  | halted hlike hcalls => exact .halted hlike hcalls
  | astray hA hprefix => exact .astray hA hprefix

theorem followedBy_pure {a : α} {b : β} (h : R a b) : FollowedBy A R (pure a) (pure b) :=
  fun _ _ ht => .ok h ht

theorem followedBy_throw {h h' : Halt} (hlike : h.Like h') :
    FollowedBy A R (throw h : ExecM α) (throw h' : ExecM β) :=
  fun _ _ ht => .halted hlike ht

/-- Anything that only adds calls follows an end in `A`. -/
theorem followedBy_of_astray {h : Halt} (hA : A h) (hy : OnlyAdds y) :
    FollowedBy A R (throw h : ExecM α) y := by
  intro t t' ht
  refine .astray hA ?_
  show t.calls <+: (y.run t').2.calls
  rw [← ht]
  exact hy t'

theorem followedBy_ofExcept {a : Except ExecError α} {b : Except ExecError β}
    (h : AnswersAs ExecError.Like A R a b) :
    FollowedBy A R (ExecM.ofExcept a) (ExecM.ofExcept b) := by
  cases h with
  | ok hR => exact followedBy_pure hR
  | error hlike => exact followedBy_throw hlike
  | astray y hA => exact followedBy_of_astray hA (onlyAdds_ofExcept b)

/-- **One execution behind another.**  What follows the first half and then the second follows the
whole, as long as it forgets no calls. -/
theorem FollowedBy.bind {S : γ → δ → Prop} {f : α → ExecM γ} {g : β → ExecM δ}
    (h : FollowedBy A R x y) (hfg : ∀ a b, R a b → FollowedBy A S (f a) (g b))
    (hg : ∀ b, OnlyAdds (g b)) : FollowedBy A S (x >>= f) (y >>= g) := by
  intro t t' ht
  have hend := h t t' ht
  rw [run_bind, run_bind]
  generalize x.run t = outcome, y.run t' = outcome' at hend
  cases hend with
  | ok hR hcalls => exact hfg _ _ hR _ _ hcalls
  | halted hlike hcalls => exact .halted hlike hcalls
  | astray hA hprefix =>
    refine .astray hA ?_
    -- the second execution may go on
    rcases outcome' with ⟨e | b, u'⟩
    · exact hprefix
    · exact hprefix.trans (hg b u')

/-- What only writes the log or hands out labels may stand in front of the one that follows. -/
theorem FollowedBy.modify_right {F : Trace → Trace} (hF : ∀ t, (F t).calls = t.calls)
    (h : FollowedBy A R x y) : FollowedBy A R x (modify F >>= fun _ => y) :=
  fun t t' ht => h t (F t') ((hF t').trans ht)

/-- The same for the one that is followed. -/
theorem FollowedBy.modify_left {F : Trace → Trace} (hF : ∀ t, (F t).calls = t.calls)
    (h : FollowedBy A R x y) : FollowedBy A R (modify F >>= fun _ => x) y :=
  fun t t' ht => h (F t) t' (ht.trans (hF t).symm)

end

/-! ### Running out of fuel -/

/-- When the first execution runs out of fuel, the second one does, with the same calls recorded. -/
def RunsOutWith (x : ExecM α) (y : ExecM β) : Prop :=
  ∀ t t' u : Trace, t'.calls = t.calls → x.run t = (.error .outOfFuel, u) →
    ∃ u', y.run t' = (.error .outOfFuel, u') ∧ u'.calls = u.calls

/-- It is enough to look at the first execution with a failure put behind it. -/
theorem FollowedBy.runsOutWith {x : ExecM α} {y : ExecM β} (e : ExecError)
    (h : FollowedBy (· ≠ .outOfFuel) (fun (_ : Unit) _ => False) (x >>= fun _ => ExecM.fail e) y) :
    RunsOutWith x y := by
  intro t t' u ht hx
  have hend := h t t' ht
  rw [run_bind, hx] at hend
  generalize y.run t' = outcome at hend
  cases hend with
  | halted hlike hcalls =>
    cases hlike
    exact ⟨_, rfl, hcalls⟩
  | astray hA _ => exact absurd rfl hA

/-! ### Steady answers -/

/-- Calls are answered alike whatever the log and the label numbers are, and forget no calls. -/
structure Callee.Steady (callee : Callee) : Prop where
  follows : ∀ method args,
    FollowedBy (fun _ => False) (· = ·) (callee method args) (callee method args)
  onlyAdds : ∀ method args, OnlyAdds (callee method args)

/-- Record for every call what `note` makes of it, and then answer it. -/
def Callee.noting (note : MethodRef → List Value → List NativeCall) (callee : Callee) : Callee :=
  fun method args => do
    modify fun t => { t with calls := t.calls ++ note method args }
    callee method args

/-- Answers stay steady when calls are noted. -/
theorem Callee.Steady.noting {callee : Callee} (h : callee.Steady)
    (note : MethodRef → List Value → List NativeCall) : (callee.noting note).Steady where
  follows method args := by
    intro t t' ht
    refine h.follows method args _ _ ?_
    show t'.calls ++ note method args = t.calls ++ note method args
    rw [ht]
  onlyAdds method args := by
    intro t
    exact (List.prefix_append _ _).trans (h.onlyAdds method args
      { t with calls := t.calls ++ note method args })

end MethodWeave
