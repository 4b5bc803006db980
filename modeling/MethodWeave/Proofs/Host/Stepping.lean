import MethodWeave.Proofs.Code.Related
import MethodWeave.Proofs.Host.Frames
/-!
Instructions that act alike.

They are the same operation on the same operand, up to their labels.  Main result: `step_extend`, a
step in a frame with further locals follows the step in the frame.
-/

namespace MethodWeave

/-! ### Instructions -/

/-- Instructions with one operation and one operand, up to labels related by `J`. -/
structure Instruction.ActsLike (J : Label → Label → Prop) (i i' : Instruction) : Prop where
  operation : Operation.ofOpcode? i'.opcode = Operation.ofOpcode? i.opcode
  operand : ∃ p q, i.operand.payload? = some p ∧ i'.operand.payload? = some q ∧
    Payload.Related J p q

/-- What an operand is that holds a payload. -/
theorem Operand.eq_of_payload? {o : Operand} {p : Payload Label} (h : o.payload? = some p) :
    match p with
    | .none => o = .none
    | .label l => o = .branchTarget (some l)
    | .labels ls => o = .switch ls
    | .int32 v => o = .int32 v
    | .int64 v => o = .int64 v
    | .float32 v => o = .float32 v
    | .float64 v => o = .float64 v
    | .string s => o = .string (some s)
    | .member m => ∃ kind, o = .member kind (some m)
    | .signature s => o = .signature (some s)
    | .local l => o = .local (some l)
    | .argument i => o = .argument i := by
  cases o <;> simp only [Operand.payload?, Option.map_eq_some_iff, Option.some.injEq] at h
  case none | int32 | int64 | float32 | float64 | argument | switch => subst h; rfl
  case member => obtain ⟨m, rfl, rfl⟩ := h; exact ⟨_, rfl⟩
  all_goals obtain ⟨a, rfl, rfl⟩ := h; rfl

/-- The labels of a jump table. -/
def Operand.table? : Operand → Option (List Label)
  | .switch ls => some ls
  | _ => Option.none

/-- The slot of an argument operand. -/
def Operand.argument? : Operand → Option UInt16
  | .argument slot => some slot
  | _ => Option.none

namespace Instruction.ActsLike

variable {J : Label → Label → Prop} {i i' : Instruction}

/-- Both have a label, and these are related, or none has one. -/
theorem label? (h : i.ActsLike J i') :
    (∃ l l', i.operand.label? = some l ∧ i'.operand.label? = some l' ∧ J l l') ∨
      (i.operand.label? = none ∧ i'.operand.label? = none) := by
  obtain ⟨p, q, hp, hq, hr⟩ := h.operand
  have hi := Operand.eq_of_payload? hp
  have hi' := Operand.eq_of_payload? hq
  cases hr with
  | label hJ => exact Or.inl ⟨_, _, by rw [hi]; rfl, by rw [hi']; rfl, hJ⟩
  | member m =>
    obtain ⟨_, hi⟩ := hi
    obtain ⟨_, hi'⟩ := hi'
    exact Or.inr ⟨by rw [hi]; rfl, by rw [hi']; rfl⟩
  | _ => exact Or.inr ⟨by rw [hi]; rfl, by rw [hi']; rfl⟩

/-- Both have a jump table, with related labels, or none has one. -/
theorem table? (h : i.ActsLike J i') :
    (∃ ls ls', i.operand.table? = some ls ∧ i'.operand.table? = some ls' ∧ List.Forall₂ J ls ls') ∨
      (i.operand.table? = none ∧ i'.operand.table? = none) := by
  obtain ⟨p, q, hp, hq, hr⟩ := h.operand
  have hi := Operand.eq_of_payload? hp
  have hi' := Operand.eq_of_payload? hq
  cases hr with
  | labels hJ => exact Or.inl ⟨_, _, by rw [hi]; rfl, by rw [hi']; rfl, hJ⟩
  | member m =>
    obtain ⟨_, hi⟩ := hi
    obtain ⟨_, hi'⟩ := hi'
    exact Or.inr ⟨by rw [hi]; rfl, by rw [hi']; rfl⟩
  | _ => exact Or.inr ⟨by rw [hi]; rfl, by rw [hi']; rfl⟩

/-- What does not depend on labels and on the kind of a member operand is the same. -/
theorem eq_of_operand {α : Type} (h : i.ActsLike J i') (look : Operand → α)
    (hlabel : ∀ l l', look (.branchTarget (some l)) = look (.branchTarget (some l')))
    (hlabels : ∀ ls ls', look (.switch ls) = look (.switch ls'))
    (hmember : ∀ m kind kind', look (.member kind (some m)) = look (.member kind' (some m))) :
    look i'.operand = look i.operand := by
  obtain ⟨p, q, hp, hq, hr⟩ := h.operand
  have hi := Operand.eq_of_payload? hp
  have hi' := Operand.eq_of_payload? hq
  -- related payloads differ in labels only, and their operands in the kind of member besides
  cases hr with
  | label _ => rw [hi, hi']; exact hlabel _ _
  | labels _ => rw [hi, hi']; exact hlabels _ _
  | member m =>
    obtain ⟨_, hi⟩ := hi
    obtain ⟨_, hi'⟩ := hi'
    rw [hi, hi']
    exact hmember _ _ _
  | _ => rw [hi, hi']

theorem local? (h : i.ActsLike J i') : i'.operand.local? = i.operand.local? :=
  h.eq_of_operand Operand.local? (fun _ _ => rfl) (fun _ _ => rfl) fun _ _ _ => rfl

theorem argument? (h : i.ActsLike J i') : i'.operand.argument? = i.operand.argument? :=
  h.eq_of_operand Operand.argument? (fun _ _ => rfl) (fun _ _ => rfl) fun _ _ _ => rfl

theorem method? (h : i.ActsLike J i') : i'.operand.method? = i.operand.method? :=
  h.eq_of_operand Operand.method? (fun _ _ => rfl) (fun _ _ => rfl) fun _ _ _ => rfl

theorem number? (h : i.ActsLike J i') :
    Frame.operandNumber? i'.operand = Frame.operandNumber? i.operand :=
  h.eq_of_operand Frame.operandNumber? (fun _ _ => rfl) (fun _ _ => rfl) fun _ _ _ => rfl

theorem string? (h : i.ActsLike J i') :
    Frame.operandString? i'.operand = Frame.operandString? i.operand :=
  h.eq_of_operand Frame.operandString? (fun _ _ => rfl) (fun _ _ => rfl) fun _ _ _ => rfl

end Instruction.ActsLike

/-! ### Operations -/

namespace Frame

variable {E : ExecError → ExecError → Prop} {A : Halt → Prop} {extra : List Value} {f g : Frame}
  {op op' : Opcode}

variable {J : Label → Label → Prop} {i i' : Instruction}

theorem argumentSlot_none (f : Frame) (i : Instruction) :
    f.argumentSlot i none = f.required i.opcode i.operand.argument? := by
  simp only [argumentSlot]
  cases i.operand <;> rfl

theorem argumentSlot_extend (hE : ExecError.Renames E i.opcode i'.opcode)
    (h : i.ActsLike J i') (slot? : Option UInt16) :
    AnswersAs E A (· = ·) (f.argumentSlot i slot?) ((f.extend extra).argumentSlot i' slot?) := by
  cases slot? with
  | some slot => exact .ok rfl
  | none =>
    simp only [argumentSlot_none, h.argument?]
    exact required_extend hE

theorem localSlot_extend (hE : ExecError.Renames E i.opcode i'.opcode) (h : i.ActsLike J i')
    (slot? : Option UInt16) :
    AnswersAs E A (· = ·) (f.localSlot i slot?) ((f.extend extra).localSlot i' slot?) := by
  cases slot? with
  | some slot => exact .ok rfl
  | none =>
    simp only [localSlot, h.local?]
    exact required_extend hE

/-! ### Jumps and returns -/

/-- Where a jump through a table goes. -/
def throughTable (f : Frame) (op : Opcode) : Value → Option (List Label) →
    Except ExecError (Frame × Flow)
  | .int32 index, some ls => .ok (f, (ls[index.toUInt32.toNat]?).elim .next .jump)
  | .int32 _, none => .error (.unsupported f.method op)
  | v, _ => .error (.typeMismatch f.method op v.typeName)

/-- A jump through a table in a frame. -/
theorem execute_switch (f : Frame) (i : Instruction) :
    f.execute i .switch =
      f.pop i.opcode >>= fun x => x.2.throughTable i.opcode x.1 i.operand.table? := by
  -- a value other than a number is refused before the table is looked at
  refine congrArg (f.pop i.opcode >>= ·) (funext ?_)
  rintro ⟨v, g⟩
  cases v with
  | int32 index =>
    cases hi : i.operand with
    | switch ls =>
      cases hl : ls[index.toUInt32.toNat]? <;> simp only [hl, Operand.table?, throughTable] <;> rfl
    | _ => rfl
  | _ => rfl

/-- The frame behind a return, and what is returned. -/
def result (f : Frame) (op : Opcode) : Except ExecError (Frame × Option Value) :=
  if f.method.returnsValue then do
    let (v, f) ← f.pop op
    return (f, some v)
  else .ok (f, none)

/-- A return in a frame. -/
theorem execute_ret (f : Frame) (i : Instruction) :
    f.execute i .ret = do
      let (g, v?) ← f.result i.opcode
      return (g, .return v?) := by
  unfold execute result
  cases f.method.returnsValue with
  | false => rfl
  | true =>
    simp only [if_true]
    cases f.pop i.opcode <;> rfl

theorem result_extend (hE : ExecError.Renames E op op') :
    AnswersAs E A (fun x y => y = (x.1.extend extra, x.2)) (f.result op)
      ((f.extend extra).result op') := by
  have hmethod : (f.extend extra).method = f.method := rfl
  simp only [result, hmethod]
  cases f.method.returnsValue with
  | false => exact .ok rfl
  | true =>
    refine (pop_extend hE).bind ?_
    rintro ⟨v, g⟩ _ rfl
    exact .ok rfl

/-! ### Operations in an extended frame -/

/-- Two ways to go on are the same, up to labels, and none is a return. -/
inductive Flow.Like (J : Label → Label → Prop) : Flow → Flow → Prop
  | next : Like J .next .next
  | jump {l l' : Label} : J l l' → Like J (.jump l) (.jump l')

/-- Two outcomes of a step: the second frame is the first one extended, and both go on alike. -/
def FlowsAs (J : Label → Label → Prop) (extra : List Value) (x y : Frame × Flow) : Prop :=
  y.1 = x.1.extend extra ∧ Flow.Like J x.2 y.2

theorem branch_extend (hE : ExecError.Renames E i.opcode i'.opcode) (h : i.ActsLike J i')
    (taken : Bool) :
    AnswersAs E A (FlowsAs J extra) (f.branch i taken) ((f.extend extra).branch i' taken) := by
  cases taken with
  | false => exact .ok ⟨rfl, .next⟩
  | true =>
    obtain ⟨l, l', hl, hl', hJ⟩ | ⟨hl, hl'⟩ := h.label?
    · simp only [branch, if_true, hl, hl']
      exact .ok ⟨rfl, .jump hJ⟩
    · simp only [branch, if_true, hl, hl']
      exact .error (hE.unsupported _)

/-- Entries of related tables at one index are related, and behind the end of one is behind the end
of the other. -/
theorem throughTable_extend (hE : ExecError.Renames E op op') (h : i.ActsLike J i') (v : Value) :
    AnswersAs E A (FlowsAs J extra) (f.throughTable op v i.operand.table?)
      ((f.extend extra).throughTable op' v i'.operand.table?) := by
  obtain ⟨ls, ls', hls, hls', hJ⟩ | ⟨hls, hls'⟩ := h.table?
  · rw [hls, hls']
    cases v with
    | int32 index =>
      refine .ok ⟨rfl, ?_⟩
      cases hl : ls[index.toUInt32.toNat]? with
      | some l =>
        obtain ⟨l', hl', hll'⟩ := exists_getElem?_left hJ hl
        rw [hl']
        exact .jump hll'
      | none =>
        have hl' : ls'[index.toUInt32.toNat]? = none := by
          rw [List.getElem?_eq_none_iff, ← hJ.length_eq]
          exact List.getElem?_eq_none_iff.1 hl
        rw [hl']
        exact .next
    | _ => exact .error (hE.typeMismatch _ _)
  · rw [hls, hls']
    cases v with
    | int32 _ => exact .error (hE.unsupported _)
    | _ => exact .error (hE.typeMismatch _ _)

/-- An operation other than a return follows, in an extended frame, the one in the frame. -/
theorem execute_extend (hE : ExecError.Renames E i.opcode i'.opcode)
    (hslots : f.AstrayBeyond A extra) (h : i.ActsLike J i')
    {operation : Operation} (hret : operation ≠ .ret) :
    AnswersAs E A (FlowsAs J extra) (f.execute i operation)
      ((f.extend extra).execute i' operation) := by
  -- each operation is a chain of accesses to the frame, and each access has its own lemma
  cases operation with
  | nothing => exact .ok ⟨rfl, .next⟩
  | loadArgument slot? =>
    refine (argumentSlot_extend hE h slot?).bind ?_
    rintro slot _ rfl
    refine (argument_extend hE).bind ?_
    rintro v _ rfl
    exact .ok ⟨rfl, .next⟩
  | storeArgument =>
    refine (argumentSlot_extend hE h none).bind ?_
    rintro slot _ rfl
    refine (pop_extend hE).bind ?_
    rintro ⟨v, g⟩ _ rfl
    refine (setArgument_extend hE).bind ?_
    rintro g _ rfl
    exact .ok ⟨rfl, .next⟩
  | loadLocal slot? =>
    refine (localSlot_extend hE h slot?).bind ?_
    rintro slot _ rfl
    refine (localValue_extend hE hslots).bind ?_
    rintro v _ rfl
    exact .ok ⟨rfl, .next⟩
  | storeLocal slot? =>
    refine (localSlot_extend hE h slot?).bind ?_
    rintro slot _ rfl
    -- popping leaves as many locals as there were, so a slot is astray in both frames or in none
    refine ((pop_extend hE).and_ok fun _ => id).bind ?_
    rintro ⟨v, g⟩ _ ⟨rfl, hpop⟩
    refine (setLocal_extend hE (hslots.of_fixed (fixed_of_pop hpop))).bind ?_
    rintro g _ rfl
    exact .ok ⟨rfl, .next⟩
  | loadNull => exact .ok ⟨rfl, .next⟩
  | loadInt value => exact .ok ⟨rfl, .next⟩
  | loadNumber =>
    simp only [execute, h.number?]
    refine (required_extend hE).bind ?_
    rintro v _ rfl
    exact .ok ⟨rfl, .next⟩
  | loadString =>
    simp only [execute, h.string?]
    refine (required_extend hE).bind ?_
    rintro v _ rfl
    exact .ok ⟨rfl, .next⟩
  | duplicate | discard =>
    refine (pop_extend hE).bind ?_
    rintro ⟨v, g⟩ _ rfl
    exact .ok ⟨rfl, .next⟩
  | negate | complement | convert =>
    refine (pop_extend hE).bind ?_
    rintro ⟨v, g⟩ _ rfl
    refine (arithmetic_extend hE).bind ?_
    rintro r _ rfl
    exact .ok ⟨rfl, .next⟩
  | binary | shift | testEqual | test =>
    refine (onTwo_extend hE).bind ?_
    rintro ⟨v, g⟩ _ rfl
    exact .ok ⟨rfl, .next⟩
  | branch => exact branch_extend hE h true
  | branchIf truth =>
    refine (pop_extend hE).bind ?_
    rintro ⟨v, g⟩ _ rfl
    exact branch_extend hE h _
  | branchEqual | branchTest =>
    refine (onTwo_extend hE).bind ?_
    rintro ⟨b, g⟩ _ rfl
    exact branch_extend hE h _
  | switch =>
    simp only [execute_switch]
    refine (pop_extend hE).bind ?_
    rintro ⟨v, g⟩ _ rfl
    exact throughTable_extend hE h v
  | call => exact .error (hE.unsupported _)
  | ret => exact absurd rfl hret
  | throw =>
    refine (pop_extend hE).bind ?_
    rintro ⟨v, g⟩ _ rfl
    exact .error (hE.thrown _)

/-- Taken or not, a branch leaves the frame as it is. -/
@[grind →]
theorem eq_of_branch {i : Instruction} {taken : Bool} {flow : Flow}
    (h : f.branch i taken = .ok (g, flow)) : g = f := by
  cases taken with
  | false => cases h; rfl
  | true =>
    simp only [branch, if_true, bind_eq_ok_iff, pure_eq_ok_iff] at h
    obtain ⟨l, -, heq⟩ := h
    cases heq
    rfl

/-- Within the table or behind its end, a jump through it leaves the frame as it is. -/
theorem eq_of_throughTable {table? : Option (List Label)} {v : Value} {flow : Flow}
    (h : f.throughTable op v table? = .ok (g, flow)) : g = f := by
  cases v <;> cases table? <;> simp only [throughTable, reduceCtorEq, Except.ok.injEq] at h
  cases h
  rfl

/-- A frame that ends gives its topmost value, if it is to give one. -/
theorem eq_or_eq_push_of_result {v? : Option Value} (h : f.result op = .ok (g, v?)) :
    g = f ∨ ∃ v, f = g.push v := by
  unfold result at h
  split at h
  · simp only [bind_eq_ok_iff, pure_eq_ok_iff, Prod.exists] at h
    obtain ⟨v, f₁, hv, heq⟩ := h
    cases heq
    exact Or.inr ⟨v, eq_push_of_pop hv⟩
  · cases h
    exact Or.inl rfl

theorem fixed_of_execute {i : Instruction} {operation : Operation} {flow : Flow}
    (h : f.execute i operation = .ok (g, flow)) : g.fixed = f.fixed := by
  cases operation with
  | switch =>
    simp only [execute_switch, bind_eq_ok_iff, Prod.exists] at h
    obtain ⟨v, f₁, hv, hflow⟩ := h
    rw [eq_of_throughTable hflow, fixed_of_pop hv]
  | ret =>
    simp only [execute_ret, bind_eq_ok_iff, pure_eq_ok_iff, Prod.exists] at h
    obtain ⟨f₁, v?, hresult, heq⟩ := h
    cases heq
    obtain rfl | ⟨v, rfl⟩ := eq_or_eq_push_of_result hresult <;> rfl
  | call => cases h
  | throw =>
    simp only [execute, bind_eq_ok_iff] at h
    obtain ⟨_, _, h⟩ := h
    cases h
  | _ =>
    simp only [execute, bind_eq_ok_iff, pure_eq_ok_iff, Prod.exists] at h
    grind

end Frame

/-! ### Steps -/

namespace Machine

variable {A : Halt → Prop} {extra : List Value} {f : Frame} {J : Label → Label → Prop}
  {i i' : Instruction} {callee : Callee}

theorem callStep_extend (hcallee : callee.Steady) (h : i.ActsLike J i') :
    FollowedBy A (Frame.FlowsAs J extra) (callStep callee f i)
      (callStep callee (f.extend extra) i') := by
  have hE := ExecError.Renames.like i.opcode i'.opcode
  unfold callStep
  rw [h.method?]
  refine (followedBy_ofExcept (Frame.required_extend hE)).bind ?_ ?_
  · rintro m _ rfl
    refine (followedBy_ofExcept (Frame.popMany_extend hE)).bind ?_ ?_
    · rintro ⟨args, g⟩ _ rfl
      refine ((hcallee.follows m args).mono nofun fun _ _ => id).bind ?_ fun _ => onlyAdds_pure _
      rintro v? _ rfl
      refine followedBy_pure ⟨?_, .next⟩
      cases m.returnsValue <;> rfl
    · exact fun x => (hcallee.onlyAdds _ _).bind fun _ => onlyAdds_pure _
  · exact fun m => (onlyAdds_ofExcept _).bind fun x =>
      (hcallee.onlyAdds _ _).bind fun _ => onlyAdds_pure _

/-- Whatever answers a call, it takes the argument slots of the callee from the stack, and leaves a
result there just when the callee is to have one. -/
theorem eq_of_callStep {g : Frame} {flow : Flow} {t u : Trace}
    (h : (callStep callee f i).run t = (.ok (g, flow), u)) :
    ∃ m args f₁ v, i.operand.method? = some m ∧
      f.popMany i.opcode m.argSlots = .ok (args, f₁) ∧
      g = if m.returnsValue then f₁.push v else f₁ := by
  unfold callStep at h
  obtain ⟨m, t₁, hm, h⟩ := run_bind_eq_ok_iff.1 h
  obtain ⟨⟨args, f₁⟩, t₂, hargs, h⟩ := run_bind_eq_ok_iff.1 h
  obtain ⟨v?, t₃, -, h⟩ := run_bind_eq_ok_iff.1 h
  obtain ⟨heq, -⟩ := run_pure_eq_ok_iff.1 h
  cases heq
  refine ⟨m, args, f₁, v?.getD .null, ?_, ExecM.eq_ok_of_run_ofExcept hargs, rfl⟩
  have hok := ExecM.eq_ok_of_run_ofExcept hm
  cases hmethod : i.operand.method? <;> rw [hmethod] at hok <;> cases hok
  rfl

theorem fixed_of_step {g : Frame} {flow : Flow} {t u : Trace}
    (h : (step callee f i).run t = (.ok (g, flow), u)) : g.fixed = f.fixed := by
  unfold step at h
  split at h
  · cases h
  · obtain ⟨m, args, f₁, v, -, hargs, rfl⟩ := eq_of_callStep h
    rw [← Frame.fixed_of_popMany hargs]
    split <;> rfl
  · exact Frame.fixed_of_execute (ExecM.eq_ok_of_run_ofExcept h)

theorem onlyAdds_step (hcallee : callee.Steady) (f : Frame) (i : Instruction) :
    OnlyAdds (step callee f i) := by
  unfold step
  split
  · exact onlyAdds_throw _
  · exact (onlyAdds_ofExcept _).bind fun m => (onlyAdds_ofExcept _).bind fun x =>
      (hcallee.onlyAdds _ _).bind fun _ => onlyAdds_pure _
  · exact onlyAdds_ofExcept _

/-- **A step in an extended frame follows the step in the frame**, as long as the step is no return
and asks for no slot that the frame has not. -/
theorem step_extend (hcallee : callee.Steady) (hslots : f.AstrayBeyond A extra)
    (h : i.ActsLike J i') (hret : Operation.ofOpcode? i.opcode ≠ some .ret) :
    FollowedBy A (Frame.FlowsAs J extra) (step callee f i) (step callee (f.extend extra) i') := by
  unfold step
  rw [h.operation]
  cases hop : Operation.ofOpcode? i.opcode with
  | none => exact followedBy_throw (.of_ne nofun nofun)
  | some operation =>
    have hne : operation ≠ .ret := fun heq => hret (by rw [hop, heq])
    cases operation with
    | call => exact callStep_extend hcallee h
    | ret => exact absurd rfl hne
    | _ => exact followedBy_ofExcept (Frame.execute_extend (.like _ _) hslots h hne)

end Machine

end MethodWeave
