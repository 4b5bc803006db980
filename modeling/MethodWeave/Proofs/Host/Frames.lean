import MethodWeave.Proofs.Host.Following
/-!
Frames that differ in further locals.

A frame with locals behind those of another does what the other does, as long as the other does not
ask for a slot that only the further locals have.  What an access does to a frame is said once, and
what execution never changes in a frame is kept apart (`Frame.fixed`).
-/

namespace MethodWeave.Frame

variable {E : ExecError → ExecError → Prop} {A : Halt → Prop} {extra : List Value} {f g : Frame}
  {op op' : Opcode}

/-! ### Accesses to a frame -/

theorem eq_push_of_pop {v : Value} (h : f.pop op = .ok (v, g)) : f = g.push v := by
  obtain ⟨method, args, locals, stack⟩ := f
  cases stack with
  | nil => cases h
  | cons v rest => cases h; rfl

theorem eq_of_popMany {n : Nat} {vs : List Value} (h : f.popMany op n = .ok (vs, g)) :
    n ≤ f.stack.length ∧ g = { f with stack := f.stack.drop n } := by
  unfold popMany at h
  split at h
  · cases h
  · next hlength =>
    cases h
    exact ⟨Nat.le_of_not_lt hlength, rfl⟩

theorem eq_of_setArgument {slot : UInt16} {v : Value} (h : f.setArgument op slot v = .ok g) :
    g = { f with args := f.args.set slot.toNat v } := by
  unfold setArgument at h
  split at h <;> cases h
  rfl

theorem eq_of_setLocal {slot : UInt16} {v : Value} (h : f.setLocal op slot v = .ok g) :
    g = { f with locals := f.locals.set slot.toNat v } := by
  unfold setLocal at h
  split at h <;> cases h
  rfl

/-- Working on two values takes them both. -/
theorem eq_push_of_onTwo {α : Type} {work : Value → Value → Except ValueError α} {r : α}
    (h : f.onTwo op work = .ok (r, g)) : ∃ a b, f = (g.push a).push b := by
  simp only [onTwo, bind_eq_ok_iff, pure_eq_ok_iff, Prod.exists] at h
  obtain ⟨b, f₁, hb, a, f₂, ha, r, -, heq⟩ := h
  cases heq
  exact ⟨a, b, by rw [eq_push_of_pop hb, eq_push_of_pop ha]⟩

/-! ### What a frame keeps -/

/-- What execution never changes in a frame: the method, and how many slots there are. -/
def fixed (f : Frame) : MethodRef × Nat × Nat := (f.method, f.args.length, f.locals.length)

@[grind =]
theorem fixed_push (v : Value) : (f.push v).fixed = f.fixed := rfl

@[grind →]
theorem fixed_of_pop {v : Value} (h : f.pop op = .ok (v, g)) : g.fixed = f.fixed := by
  rw [eq_push_of_pop h, fixed_push]

@[grind →]
theorem fixed_of_popMany {n : Nat} {vs : List Value} (h : f.popMany op n = .ok (vs, g)) :
    g.fixed = f.fixed := by
  rw [(eq_of_popMany h).2]
  rfl

@[grind →]
theorem fixed_of_setArgument {slot : UInt16} {v : Value} (h : f.setArgument op slot v = .ok g) :
    g.fixed = f.fixed := by
  rw [eq_of_setArgument h]
  simp only [fixed, List.length_set]

@[grind →]
theorem fixed_of_setLocal {slot : UInt16} {v : Value} (h : f.setLocal op slot v = .ok g) :
    g.fixed = f.fixed := by
  rw [eq_of_setLocal h]
  simp only [fixed, List.length_set]

@[grind →]
theorem fixed_of_onTwo {α : Type} {work : Value → Value → Except ValueError α} {a : α}
    (h : f.onTwo op work = .ok (a, g)) : g.fixed = f.fixed := by
  obtain ⟨b, c, rfl⟩ := eq_push_of_onTwo h
  rw [fixed_push, fixed_push]

/-! ### Further locals -/

/-- The frame with further locals. -/
def extend (extra : List Value) (f : Frame) : Frame := { f with locals := f.locals ++ extra }

theorem extend_nil (f : Frame) : f.extend [] = f := by
  unfold extend
  rw [List.append_nil]

/-- One value twice, and a frame that is extended. -/
def Extends {α : Type} (extra : List Value) (x y : α × Frame) : Prop :=
  y = (x.1, x.2.extend extra)

theorem pop_extend (hE : ExecError.Renames E op op') :
    AnswersAs E A (Extends extra) (f.pop op) ((f.extend extra).pop op') := by
  obtain ⟨method, args, locals, stack⟩ := f
  cases stack with
  | nil => exact .error (hE.stackUnderflow _)
  | cons v rest => exact .ok rfl

theorem popMany_extend (hE : ExecError.Renames E op op') {n : Nat} :
    AnswersAs E A (Extends extra) (f.popMany op n) ((f.extend extra).popMany op' n) := by
  by_cases h : f.stack.length < n
  · simp only [popMany, extend, h, if_true]
    exact .error (hE.stackUnderflow _)
  · simp only [popMany, extend, h, if_false]
    exact .ok rfl

theorem argument_extend (hE : ExecError.Renames E op op') {slot : UInt16} :
    AnswersAs E A (· = ·) (f.argument op slot) ((f.extend extra).argument op' slot) := by
  simp only [argument, extend]
  cases f.args[slot.toNat]? with
  | none => exact .error (hE.badSlot _ _)
  | some v => exact .ok rfl

theorem setArgument_extend (hE : ExecError.Renames E op op') {slot : UInt16} {v : Value} :
    AnswersAs E A (fun g g' => g' = g.extend extra) (f.setArgument op slot v)
      ((f.extend extra).setArgument op' slot v) := by
  by_cases h : slot.toNat < f.args.length
  · simp only [setArgument, extend, h, if_true]
    exact .ok rfl
  · simp only [setArgument, extend, h, if_false]
    exact .error (hE.badSlot _ _)

theorem arithmetic_extend (hE : ExecError.Renames E op op') {α : Type} {r : Except ValueError α} :
    AnswersAs E A (· = ·) (f.arithmetic op r) ((f.extend extra).arithmetic op' r) := by
  refine .mapError fun e => ?_
  cases e with
  | mismatch v => exact hE.typeMismatch _ _
  | undefined => exact hE.undefinedResult _

theorem required_extend (hE : ExecError.Renames E op op') {α : Type} {o : Option α} :
    AnswersAs E A (· = ·) (f.required op o) ((f.extend extra).required op' o) := by
  cases o with
  | none => exact .error (hE.unsupported _)
  | some a => exact .ok rfl

theorem onTwo_extend (hE : ExecError.Renames E op op') {α : Type}
    {work : Value → Value → Except ValueError α} :
    AnswersAs E A (Extends extra) (f.onTwo op work) ((f.extend extra).onTwo op' work) := by
  refine (pop_extend hE).bind ?_
  rintro ⟨b, g⟩ _ rfl
  refine (pop_extend hE).bind ?_
  rintro ⟨a, g⟩ _ rfl
  refine (arithmetic_extend hE).bind ?_
  rintro r _ rfl
  exact .ok rfl

/-- The end of a frame that asks for a slot that only the further locals have is in `A`. -/
def AstrayBeyond (A : Halt → Prop) (extra : List Value) (f : Frame) : Prop :=
  ∀ op (slot : UInt16), f.locals.length ≤ slot.toNat →
    slot.toNat < f.locals.length + extra.length → A (.failed (.badSlot f.method op slot))

theorem astrayBeyond_nil (A : Halt → Prop) (f : Frame) : f.AstrayBeyond A [] := by
  intro op slot hle hlt
  rw [List.length_nil] at hlt
  omega

theorem AstrayBeyond.of_fixed (h : f.AstrayBeyond A extra) (hg : g.fixed = f.fixed) :
    g.AstrayBeyond A extra := by
  obtain ⟨hmethod, -, hlocals⟩ : g.method = f.method ∧ _ ∧ g.locals.length = f.locals.length := by
    simpa only [fixed, Prod.mk.injEq] using hg
  unfold AstrayBeyond
  rw [hmethod, hlocals]
  exact h

theorem localValue_extend (hE : ExecError.Renames E op op') (hslots : f.AstrayBeyond A extra)
    {slot : UInt16} :
    AnswersAs E A (· = ·) (f.localValue op slot) ((f.extend extra).localValue op' slot) := by
  simp only [localValue, extend]
  cases hv : f.locals[slot.toNat]? with
  | some v =>
    have hlt := (List.getElem?_eq_some_iff.1 hv).1
    rw [List.getElem?_append_left hlt, hv]
    exact .ok rfl
  | none =>
    have hle := List.getElem?_eq_none_iff.1 hv
    by_cases hlt : slot.toNat < f.locals.length + extra.length
    · exact .astray _ (hslots _ _ hle hlt)
    · have hv' : (f.locals ++ extra)[slot.toNat]? = none := by
        rw [List.getElem?_eq_none_iff, List.length_append]
        omega
      rw [hv']
      exact .error (hE.badSlot _ _)

theorem setLocal_extend (hE : ExecError.Renames E op op') (hslots : f.AstrayBeyond A extra)
    {slot : UInt16} {v : Value} :
    AnswersAs E A (fun g g' => g' = g.extend extra) (f.setLocal op slot v)
      ((f.extend extra).setLocal op' slot v) := by
  have hlength : (f.locals ++ extra).length = f.locals.length + extra.length := List.length_append
  by_cases hlt : slot.toNat < f.locals.length
  · have hlt' : slot.toNat < (f.locals ++ extra).length := by omega
    simp only [setLocal, extend, hlt, hlt', if_true, List.set_append_left _ _ hlt]
    exact .ok rfl
  · by_cases hlt' : slot.toNat < f.locals.length + extra.length
    · rw [setLocal, if_neg hlt]
      exact .astray _ (hslots _ _ (Nat.le_of_not_lt hlt) hlt')
    · simp only [setLocal, extend, hlength, hlt, hlt', if_false]
      exact .error (hE.badSlot _ _)

end MethodWeave.Frame
