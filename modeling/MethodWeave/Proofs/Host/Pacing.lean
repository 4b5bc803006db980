import MethodWeave.Proofs.Host.Stepping
import MethodWeave.Proofs.Opcode.Forms
/-!
Executions that keep pace with each other.

Two executions keep pace when they make the same native calls and end in the same way.  They may be
given different fuel, so either of them may be let run short of it (`short`, `short'`); the other
one has then made the same calls and may have made more.  Their errors are related by `E`; where
code is padded, the second one may name a branch by its long form.

Main results: keeping pace is kept by running one execution behind another (`KeepsPace.bind`),
instructions that act alike keep pace when their calls do (`keepsPace_step`), and two executions
that keep pace with a third one keep pace with each other (`KeepsPace.through`).
-/

namespace MethodWeave

variable {α β γ δ : Type}

/-! ### Errors up to the form of a branch -/

namespace ExecError

/-- The error with the branch that it names, if it names one, in its long form. -/
def inLongForm : ExecError → ExecError
  | .stackUnderflow m op => .stackUnderflow m op.widened
  | .typeMismatch m op found => .typeMismatch m op.widened found
  | .undefinedResult m op => .undefinedResult m op.widened
  | .badSlot m op slot => .badSlot m op.widened slot
  | .unsupported m op => .unsupported m op.widened
  | e => e

/-- The same error, or the same up to the long form of the branch that it names. -/
def WidensTo (e e' : ExecError) : Prop := e' = e ∨ e' = e.inLongForm

theorem widensTo_refl (e : ExecError) : e.WidensTo e := Or.inl rfl

@[simp] theorem inLongForm_inLongForm (e : ExecError) : e.inLongForm.inLongForm = e.inLongForm := by
  cases e <;> simp only [inLongForm, Opcode.widened_widened]

/-- The same error up to the form of the branch that it names. -/
def SameForm (e e' : ExecError) : Prop := e'.inLongForm = e.inLongForm

/-- What an error may widen to is the same up to the form of the branch. -/
theorem WidensTo.sameForm {e e₁ e₂ : ExecError} (h₁ : e.WidensTo e₁) (h₂ : e.WidensTo e₂) :
    e₁.SameForm e₂ := by
  have hform {e' : ExecError} (h : e.WidensTo e') : e'.inLongForm = e.inLongForm := by
    rcases h with rfl | rfl
    · rfl
    · exact inLongForm_inLongForm e
  exact (hform h₂).trans (hform h₁).symm

/-- An opcode or its long form may be named. -/
theorem renames_widensTo {op op' : Opcode} (h : op' = op ∨ op.longForm? = some op') :
    Renames WidensTo op op' := by
  rcases h with rfl | hlong
  · exact ⟨fun _ => Or.inl rfl, fun _ _ => Or.inl rfl, fun _ => Or.inl rfl, fun _ _ => Or.inl rfl,
      fun _ => Or.inl rfl, fun _ => Or.inl rfl⟩
  · obtain rfl : op.widened = op' := by rw [Opcode.widened, hlong, Option.getD_some]
    exact ⟨fun _ => Or.inr rfl, fun _ _ => Or.inr rfl, fun _ => Or.inr rfl, fun _ _ => Or.inr rfl,
      fun _ => Or.inr rfl, fun _ => Or.inl rfl⟩

end ExecError

/-! ### Executions -/

/-- Two ends agree: the same calls are recorded and the same result or error is reached, or one
execution ran short of fuel that may do so, and the other has recorded what it had. -/
inductive EndsEven (E : ExecError → ExecError → Prop) (short short' : Prop) (R : α → β → Prop) :
    Except Halt α × Trace → Except Halt β × Trace → Prop
  | ok {a : α} {b : β} {u u' : Trace} : R a b → u'.calls = u.calls →
      EndsEven E short short' R (.ok a, u) (.ok b, u')
  | failed {e e' : ExecError} {u u' : Trace} : E e e' → u'.calls = u.calls →
      EndsEven E short short' R (.error (.failed e), u) (.error (.failed e'), u')
  | outOfFuel {u u' : Trace} : u'.calls = u.calls →
      EndsEven E short short' R (.error .outOfFuel, u) (.error .outOfFuel, u')
  | short {u : Trace} {y : Except Halt β × Trace} : short → u.calls <+: y.2.calls →
      EndsEven E short short' R (.error .outOfFuel, u) y
  | short' {x : Except Halt α × Trace} {u' : Trace} : short' → u'.calls <+: x.2.calls →
      EndsEven E short short' R x (.error .outOfFuel, u')

/-- The executions, begun with the same calls recorded, end evenly. -/
def KeepsPace (E : ExecError → ExecError → Prop) (short short' : Prop) (R : α → β → Prop)
    (x : ExecM α) (y : ExecM β) : Prop :=
  ∀ t t' : Trace, t'.calls = t.calls → EndsEven E short short' R (x.run t) (y.run t')

section

variable {E : ExecError → ExecError → Prop} {short short' : Prop} {x : ExecM α} {y : ExecM β}
  {R : α → β → Prop}

theorem keepsPace_pure {a : α} {b : β} (h : R a b) :
    KeepsPace E short short' R (pure a) (pure b) :=
  fun _ _ ht => .ok h ht

theorem keepsPace_fail {e e' : ExecError} (h : E e e') :
    KeepsPace E short short' R (ExecM.fail e : ExecM α) (ExecM.fail e' : ExecM β) :=
  fun _ _ ht => .failed h ht

theorem keepsPace_outOfFuel :
    KeepsPace E short short' R (throw .outOfFuel : ExecM α) (throw .outOfFuel : ExecM β) :=
  fun _ _ ht => .outOfFuel ht

/-- Anything that only adds calls keeps pace with what may run short at once. -/
theorem keepsPace_of_short (h : short) (hy : OnlyAdds y) :
    KeepsPace E short short' R (throw .outOfFuel : ExecM α) y := by
  intro t t' ht
  refine .short h ?_
  show t.calls <+: (y.run t').2.calls
  rw [← ht]
  exact hy t'

theorem keepsPace_of_short' (h : short') (hx : OnlyAdds x) :
    KeepsPace E short short' R x (throw .outOfFuel : ExecM β) := by
  intro t t' ht
  refine .short' h ?_
  show t'.calls <+: (x.run t).2.calls
  rw [ht]
  exact hx t

theorem keepsPace_ofExcept {a : Except ExecError α} {b : Except ExecError β}
    (h : AnswersAs E (fun _ => False) R a b) :
    KeepsPace E short short' R (ExecM.ofExcept a) (ExecM.ofExcept b) := by
  cases h with
  | ok hR => exact keepsPace_pure hR
  | error hE => exact keepsPace_fail hE
  | astray y hA => exact hA.elim

/-- **One execution behind another.**  Two executions that keep pace may be followed by two that do,
as long as these forget no calls. -/
theorem KeepsPace.bind {S : γ → δ → Prop} {f : α → ExecM γ} {g : β → ExecM δ}
    (h : KeepsPace E short short' R x y)
    (hfg : ∀ a b, R a b → KeepsPace E short short' S (f a) (g b)) (hf : ∀ a, OnlyAdds (f a))
    (hg : ∀ b, OnlyAdds (g b)) : KeepsPace E short short' S (x >>= f) (y >>= g) := by
  intro t t' ht
  have hend := h t t' ht
  rw [run_bind, run_bind]
  generalize x.run t = outcome, y.run t' = outcome' at hend
  cases hend with
  | ok hR hcalls => exact hfg _ _ hR _ _ hcalls
  | failed hE hcalls => exact .failed hE hcalls
  | outOfFuel hcalls => exact .outOfFuel hcalls
  | short hshort hprefix =>
    -- the execution with more fuel may go on
    refine .short hshort ?_
    obtain ⟨e | b, u'⟩ := outcome'
    · exact hprefix
    · exact hprefix.trans (hg b u')
  | short' hshort hprefix =>
    refine .short' hshort ?_
    obtain ⟨e | a, u⟩ := outcome
    · exact hprefix
    · exact hprefix.trans (hf a u)

/-- What only writes the log or hands out labels may stand in front. -/
theorem KeepsPace.modify_left {F : Trace → Trace} (hF : ∀ t, (F t).calls = t.calls)
    (h : KeepsPace E short short' R x y) :
    KeepsPace E short short' R (modify F >>= fun _ => x) y :=
  fun t t' ht => h (F t) t' (ht.trans (hF t).symm)

theorem KeepsPace.modify_right {F : Trace → Trace} (hF : ∀ t, (F t).calls = t.calls)
    (h : KeepsPace E short short' R x y) :
    KeepsPace E short short' R x (modify F >>= fun _ => y) :=
  fun t t' ht => h t (F t') ((hF t').trans ht)

end

/-! ### Through a third execution -/

section

variable {E₁ E₂ E : ExecError → ExecError → Prop}
  {short₁ short₁' short₂ short₂' short short' : Prop}
  {R : γ → α → Prop} {S : γ → β → Prop} {T : α → β → Prop}

/-- Two ends that agree with a third agree with each other, if at most one of them may be ahead of
the third.  What is ahead of the third is ahead of what agrees with it. -/
theorem EndsEven.through {z : Except Halt γ × Trace} {x : Except Halt α × Trace}
    {y : Except Halt β × Trace} (hx : EndsEven E₁ short₁ short₁' R z x)
    (hy : EndsEven E₂ short₂ short₂' S z y) (hE : ∀ e e₁ e₂, E₁ e e₁ → E₂ e e₂ → E e₁ e₂)
    (hR : ∀ c a b, R c a → S c b → T a b) (hahead : ¬ (short₁ ∧ short₂))
    (hshort : short₁' ∨ short₂ → short) (hshort' : short₂' ∨ short₁ → short') :
    EndsEven E short short' T x y := by
  cases hx with
  | ok hx hcalls =>
    cases hy with
    | ok hy hcalls' => exact .ok (hR _ _ _ hx hy) (hcalls'.trans hcalls.symm)
    | short' hs hle => exact .short' (hshort' (Or.inl hs)) (hcalls ▸ hle)
  | failed hx hcalls =>
    cases hy with
    | failed hy hcalls' => exact .failed (hE _ _ _ hx hy) (hcalls'.trans hcalls.symm)
    | short' hs hle => exact .short' (hshort' (Or.inl hs)) (hcalls ▸ hle)
  | outOfFuel hcalls =>
    cases hy with
    | outOfFuel hcalls' => exact .outOfFuel (hcalls'.trans hcalls.symm)
    | short hs hle => exact .short (hshort (Or.inr hs)) (hcalls ▸ hle)
    | short' hs hle => exact .short' (hshort' (Or.inl hs)) (hcalls ▸ hle)
  | short hs hle =>
    cases hy with
    | outOfFuel hcalls' => exact .short' (hshort' (Or.inr hs)) (hcalls' ▸ hle)
    | short hs' _ => exact absurd ⟨hs, hs'⟩ hahead
    | short' hs' hle' => exact .short' (hshort' (Or.inl hs')) (hle'.trans hle)
  | short' hs hle =>
    cases hy with
    | ok _ hcalls' => exact .short (hshort (Or.inl hs)) (hcalls' ▸ hle)
    | failed _ hcalls' => exact .short (hshort (Or.inl hs)) (hcalls' ▸ hle)
    | outOfFuel hcalls' => exact .short (hshort (Or.inl hs)) (hcalls' ▸ hle)
    | short _ hle' => exact .short (hshort (Or.inl hs)) (hle.trans hle')
    | short' hs' hle' =>
      -- both lag behind the third, so one of them has made the calls of the other
      rcases List.prefix_or_prefix_of_prefix hle hle' with hlonger | hlonger
      · exact .short (hshort (Or.inl hs)) hlonger
      · exact .short' (hshort' (Or.inl hs')) hlonger

/-- **Through a third execution.**  Two executions keep pace with each other if both keep pace with
a third one, and at most one of them may be ahead of it. -/
theorem KeepsPace.through {z : ExecM γ} {x : ExecM α} {y : ExecM β}
    (hx : KeepsPace E₁ short₁ short₁' R z x) (hy : KeepsPace E₂ short₂ short₂' S z y)
    (hE : ∀ e e₁ e₂, E₁ e e₁ → E₂ e e₂ → E e₁ e₂) (hR : ∀ c a b, R c a → S c b → T a b)
    (hahead : ¬ (short₁ ∧ short₂)) (hshort : short₁' ∨ short₂ → short)
    (hshort' : short₂' ∨ short₁ → short') : KeepsPace E short short' T x y :=
  fun t t' ht => (hx t t rfl).through (hy t t' ht) hE hR hahead hshort hshort'

end

/-! ### Steps -/

open ExecError (WidensTo)

/-- Calls that two callees answer keep pace, and neither callee forgets calls. -/
structure Callee.KeepsPace (short short' : Prop) (callee callee' : Callee) : Prop where
  answers : ∀ method args, MethodWeave.KeepsPace WidensTo short short' (· = ·)
    (callee method args) (callee' method args)
  steady : callee.Steady
  steady' : callee'.Steady

namespace Machine

variable {short short' : Prop} {callee callee' : Callee} {f : Frame} {J : Label → Label → Prop}
  {i i' : Instruction}

theorem keepsPace_callStep (hcallee : callee.KeepsPace short short' callee')
    (hE : ExecError.Renames WidensTo i.opcode i'.opcode) (h : i.ActsLike J i') :
    KeepsPace WidensTo short short' (Frame.FlowsAs J []) (callStep callee f i)
      (callStep callee' (f.extend []) i') := by
  unfold callStep
  rw [h.method?]
  refine (keepsPace_ofExcept (Frame.required_extend hE)).bind ?_
    (fun m => (onlyAdds_ofExcept _).bind fun x =>
      (hcallee.steady.onlyAdds _ _).bind fun _ => onlyAdds_pure _)
    (fun m => (onlyAdds_ofExcept _).bind fun x =>
      (hcallee.steady'.onlyAdds _ _).bind fun _ => onlyAdds_pure _)
  rintro m _ rfl
  refine (keepsPace_ofExcept (Frame.popMany_extend hE)).bind ?_
    (fun x => (hcallee.steady.onlyAdds _ _).bind fun _ => onlyAdds_pure _)
    (fun x => (hcallee.steady'.onlyAdds _ _).bind fun _ => onlyAdds_pure _)
  rintro ⟨args, g⟩ _ rfl
  refine (hcallee.answers m args).bind ?_ (fun _ => onlyAdds_pure _) fun _ => onlyAdds_pure _
  rintro v? _ rfl
  refine keepsPace_pure ⟨?_, .next⟩
  cases m.returnsValue <;> rfl

/-- **A step keeps pace** with the step of an instruction that acts alike, if it is no return. -/
theorem keepsPace_step (hcallee : callee.KeepsPace short short' callee')
    (hE : ExecError.Renames WidensTo i.opcode i'.opcode) (h : i.ActsLike J i')
    (hret : Operation.ofOpcode? i.opcode ≠ some .ret) :
    KeepsPace WidensTo short short' (Frame.FlowsAs J []) (step callee f i) (step callee' f i') := by
  have hstep : KeepsPace WidensTo short short' (Frame.FlowsAs J []) (step callee f i)
      (step callee' (f.extend []) i') := by
    unfold step
    rw [h.operation]
    cases hop : Operation.ofOpcode? i.opcode with
    | none => exact keepsPace_fail (hE.unsupported _)
    | some operation =>
      have hne : operation ≠ .ret := fun heq => hret (by rw [hop, heq])
      cases operation with
      | call => exact keepsPace_callStep hcallee hE h
      | ret => exact absurd rfl hne
      | _ => exact keepsPace_ofExcept (Frame.execute_extend hE (Frame.astrayBeyond_nil _ f) h hne)
  rwa [Frame.extend_nil] at hstep

/-- A return keeps pace with a return. -/
theorem keepsPace_result {op op' : Opcode} (hE : ExecError.Renames WidensTo op op') :
    KeepsPace WidensTo short short' (· = ·)
      (ExecM.ofExcept (f.result op) >>= fun x => pure x.2)
      (ExecM.ofExcept (f.result op') >>= fun x => pure x.2) := by
  have hresult : KeepsPace WidensTo short short' (· = ·)
      (ExecM.ofExcept (f.result op) >>= fun x => pure x.2)
      (ExecM.ofExcept ((f.extend []).result op') >>= fun x => pure x.2) := by
    refine (keepsPace_ofExcept (Frame.result_extend hE)).bind ?_ (fun _ => onlyAdds_pure _)
      fun _ => onlyAdds_pure _
    rintro ⟨g, v?⟩ _ rfl
    exact keepsPace_pure rfl
  rwa [Frame.extend_nil] at hresult

end Machine

end MethodWeave
