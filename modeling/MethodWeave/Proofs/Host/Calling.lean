import MethodWeave.Proofs.Host.Straight
/-!
Calls of hooks.

The code of a call loads the values, calls the hook and drops what the hook returns.  Main results:
`followedBy_calls`, a program that holds the code of calls makes these calls and goes on behind
them; and `makes_of_before` and `makes_of_after`, which calls are made by the code in front of a
body and behind it.
-/

namespace MethodWeave

open Machine (Program loop callStep step LeadsTo)

/-- Call hooks one after the other and drop what they return. -/
def Hooks.callAll (callee : Callee) : List (MethodRef × List Value) → ExecM Unit
  | [] => pure ()
  | (hook, args) :: rest => do
    let _ ← callee hook args
    callAll callee rest

/-! ### One call -/

section

variable {A : Halt → Prop} {α : Type} {R : α → Option Value → Prop} {x : ExecM α} {callee : Callee}
  {p : Program} {fuel pc : Nat} {f : Frame} {hook : MethodRef}

/-- A call instruction takes its values from the stack, calls, and perhaps pushes a result. -/
theorem followedBy_callInstruction {code : List NativeInstruction} {vs : List Value}
    (h : p.Holds pc ({ opcode := Opcode.call, operand := .member (.method hook) } :: code))
    (hcallee : callee.Steady) (hvs : vs.length = hook.argSlots)
    (hx : ∀ v, FollowedBy A R x
      (loop callee p fuel (pc + 1) (if hook.returnsValue then f.push v else f))) :
    FollowedBy A R (callee hook vs >>= fun _ => x)
      (loop callee p (fuel + 1) pc (f.pushAll vs)) := by
  obtain ⟨i, hi, hop, q, hq, hrelated⟩ := h.head
  cases hrelated
  have hcall : Operation.ofOpcode? i.opcode = some .call := hop
  have hmethod : i.operand.method? = some hook := by
    obtain ⟨kind, hkind⟩ := Operand.eq_of_payload? hq
    rw [hkind]
    rfl
  -- the step takes just the values that were pushed
  have hstep : step callee (f.pushAll vs) i = callee hook vs >>= fun v? =>
      pure (if hook.returnsValue then f.push (v?.getD .null) else f, .next) := by
    have hpop := f.popMany_pushAll vs i.opcode
    rw [hvs] at hpop
    unfold step
    simp only [hcall, callStep, hmethod, Frame.required]
    show (ExecM.ofExcept ((f.pushAll vs).popMany i.opcode hook.argSlots) >>= _) = _
    rw [hpop]
    rfl
  rw [Machine.loop_step hi, hstep]
  refine .modify_right (fun _ => rfl) ?_
  rw [bind_assoc]
  refine ((hcallee.follows hook vs).mono nofun fun _ _ => id).bind ?_ ?_
  · rintro v? _ rfl
    exact hx _
  · exact fun v? => Machine.onlyAdds_loop hcallee _ _ _

@[simp]
theorem Hooks.length_loadArguments (count : Nat) : (Hooks.loadArguments count).length = count := by
  simp [Hooks.loadArguments]

/-- **The code of a call calls.**  The hook gets the leading arguments and the values of the slots;
behind the code the frame is as it was in front of it. -/
theorem followedBy_call {count : Nat} {result? : Option Local} {vs : List Value}
    (h : p.Holds pc (Hooks.call hook count result?)) (hcallee : callee.Steady)
    (hcount : count ≤ f.args.length) (hslots : count ≤ 65536)
    (hvs : List.Forall₂ (fun slot v => f.locals[slot.index.toNat]? = some v) result?.toList vs)
    (hargs : hook.argSlots = count + vs.length)
    (hx : FollowedBy A R x (loop callee p fuel (pc + (Hooks.call hook count result?).length) f)) :
    FollowedBy A R (callee hook (f.args.take count ++ vs) >>= fun _ => x)
      (loop callee p ((Hooks.call hook count result?).length + fuel) pc f) := by
  unfold Hooks.call at h
  have hresult := h.left.left.right
  have hcall := h.left.right
  have hdrop := h.right
  simp only [List.length_append, Hooks.length_loadArguments, List.length_map, List.length_cons,
    List.length_nil, Nat.zero_add, ← Nat.add_assoc] at hresult hcall hdrop
  -- the values are loaded, then the hook is called
  have hload := (Machine.leadsTo_loadArguments callee h.left.left.left hcount hslots).trans
    (Machine.leadsTo_loadLocals callee (f := f.pushAll (f.args.take count)) hresult hvs)
  rw [← Frame.pushAll_append] at hload
  have hlength : (Hooks.call hook count result?).length + fuel =
      count + result?.toList.length + ((if hook.returnsValue then 1 else 0) + fuel + 1) := by
    simp only [Hooks.call, List.length_append, Hooks.length_loadArguments, List.length_map]
    split <;> simp only [List.length_cons, List.length_nil] <;> omega
  have hplace : pc + (Hooks.call hook count result?).length =
      pc + count + result?.toList.length + 1 + (if hook.returnsValue then 1 else 0) := by
    simp only [Hooks.call, List.length_append, Hooks.length_loadArguments, List.length_map]
    split <;> simp only [List.length_cons, List.length_nil] <;> omega
  rw [hlength]
  rw [hplace] at hx
  refine hload.followedBy (followedBy_callInstruction hcall hcallee ?_ fun v => ?_)
  · rw [List.length_append, List.length_take, Nat.min_eq_left hcount, hargs]
  · -- what the hook returns is dropped
    cases hreturns : hook.returnsValue with
    | false =>
      simp only [hreturns, if_false, Bool.false_eq_true, Nat.zero_add, Nat.add_zero] at hx ⊢
      exact hx
    | true =>
      simp only [hreturns, if_true] at hx hdrop ⊢
      exact (Machine.leadsTo_pop callee hdrop).followedBy hx

end

/-! ### Several calls -/

/-- The code makes the call, in frames like the given one. -/
def Hooks.Makes (f : Frame) (code : List NativeInstruction) (call : MethodRef × List Value) :
    Prop :=
  ∃ count result? vs, code = Hooks.call call.1 count result? ∧ call.2 = f.args.take count ++ vs ∧
    count ≤ f.args.length ∧ count ≤ 65536 ∧ call.1.argSlots = count + vs.length ∧
    List.Forall₂ (fun slot v => f.locals[slot.index.toNat]? = some v) result?.toList vs

/-- **The code of calls makes the calls**, one after the other. -/
theorem followedBy_calls {A : Halt → Prop} {α : Type} {R : α → Option Value → Prop} {x : ExecM α}
    {callee : Callee} {p : Program} {fuel pc : Nat} {f : Frame}
    {codes : List (List NativeInstruction)} {calls : List (MethodRef × List Value)}
    (hcallee : callee.Steady) (hmakes : List.Forall₂ (Hooks.Makes f) codes calls)
    (h : p.Holds pc codes.flatten)
    (hx : FollowedBy A R x (loop callee p fuel (pc + codes.flatten.length) f)) :
    FollowedBy A R (Hooks.callAll callee calls >>= fun _ => x)
      (loop callee p (codes.flatten.length + fuel) pc f) := by
  induction hmakes generalizing pc with
  | nil =>
    simp only [List.flatten_nil, List.length_nil, Nat.zero_add, Nat.add_zero] at hx ⊢
    exact hx
  | @cons code call codes calls hmake _ ih =>
    obtain ⟨hook, args⟩ := call
    obtain ⟨count, result?, vs, rfl, rfl, hcount, hslots, hargs, hvs⟩ := hmake
    rw [List.flatten_cons] at h
    rw [List.flatten_cons, List.length_append, ← Nat.add_assoc] at hx
    rw [List.flatten_cons, List.length_append, Nat.add_assoc]
    simp only [Hooks.callAll, bind_assoc]
    exact followedBy_call h.left hcallee hcount hslots hvs hargs (ih h.right hx)

/-! ### The calls of a request -/

/-- The calls in front of a body: each hook gets as many of the arguments as it takes. -/
def Hooks.frontCalls (hooks : List MethodRef) (args : List Value) : List (MethodRef × List Value) :=
  hooks.map fun hook => (hook, args.take hook.argSlots)

/-- The calls behind a body: a hook that takes more values than there are arguments also gets the
result. -/
def Hooks.backCalls (hooks : List MethodRef) (args : List Value) (v? : Option Value) :
    List (MethodRef × List Value) :=
  hooks.map fun hook => (hook, (args ++ v?.toList).take hook.argSlots)

/-- The code behind a body makes the calls behind it, if the result is in its slot. -/
theorem makes_of_after (f : Frame) (v? : Option Value) {method : MethodRef}
    {hooks : List MethodRef} {result? : Option Local} {calls : List NativeInstruction}
    (h : Hooks.after method hooks result? = .ok calls) (hargs : f.args.length = method.argSlots)
    (hslots : method.argSlots ≤ 65536)
    (hresult : List.Forall₂ (fun slot v => f.locals[slot.index.toNat]? = some v) result?.toList
      v?.toList) :
    ∃ codes, calls = codes.flatten ∧
      List.Forall₂ (Hooks.Makes f) codes (Hooks.backCalls hooks f.args v?) := by
  obtain ⟨codes, hcodes, hcalls⟩ := bind_eq_ok_iff.1 h
  refine ⟨codes, (pure_eq_ok_iff.1 hcalls).symm, ?_⟩
  rw [Hooks.backCalls, List.forall₂_map_right_iff]
  -- hook by hook, by what it takes
  refine (mapM_eq_ok_iff.1 hcodes).flip.imp fun code hook hcode => ?_
  split at hcode
  · -- the hook gets arguments only
    next hle =>
    cases hcode
    refine ⟨hook.argSlots, none, [], rfl, ?_, by omega, by omega, rfl, .nil⟩
    rw [List.append_nil, List.take_append_of_le_length (by omega)]
  · split at hcode
    · -- the hook gets all arguments and the result
      next hmore =>
      cases hcode
      obtain ⟨heq, hsome⟩ := hmore
      obtain ⟨slot, rfl⟩ := Option.isSome_iff_exists.1 hsome
      have hlength : v?.toList.length = 1 := hresult.length_eq.symm
      refine ⟨method.argSlots, some slot, v?.toList, rfl, ?_, by omega, hslots, ?_, hresult⟩
      · rw [← hargs, List.take_length, List.take_of_length_le (by rw [List.length_append]; omega)]
      · rw [hlength]
        exact heq
    · cases hcode

/-- In front of a body stands what would stand behind it if there were no result. -/
theorem Hooks.before_eq (method : MethodRef) (hooks : List MethodRef) :
    before method hooks = after method hooks none := by
  unfold before after
  refine congrArg (fun f => hooks.mapM f >>= fun calls => pure calls.flatten) ?_
  funext hook
  split
  · rfl
  · rw [if_neg (by rintro ⟨-, hsome⟩; cases hsome)]

/-- The code in front of a body makes the calls in front of it. -/
theorem makes_of_before (f : Frame) {method : MethodRef} {hooks : List MethodRef}
    {front : List NativeInstruction} (h : Hooks.before method hooks = .ok front)
    (hargs : f.args.length = method.argSlots) (hslots : method.argSlots ≤ 65536) :
    ∃ codes, front = codes.flatten ∧
      List.Forall₂ (Hooks.Makes f) codes (Hooks.frontCalls hooks f.args) := by
  rw [Hooks.before_eq] at h
  have hmakes := makes_of_after f none h hargs hslots .nil
  rwa [Hooks.backCalls, Option.toList_none, List.append_nil] at hmakes

end MethodWeave
