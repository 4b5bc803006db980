import MethodWeave.Proofs.Host.Calling
/-!
The code behind a body.

It saves the result in the slot declared for it, calls hooks and returns the result.  The slot lies
behind the locals of the body, so nothing that the body keeps is lost.  Main result:
`followedBy_epilogue`.
-/

namespace MethodWeave

open Machine (Program loop LeadsTo)

/-- What is left to do when a body has returned. -/
def Hooks.finish (callee : Callee) (hooks : List MethodRef) (x : Frame × Option Value) :
    ExecM (Option Value) := do
  callAll callee (backCalls hooks x.1.args x.2)
  return x.2

/-- The slot for the result, in a generator. -/
def Hooks.resultSlot? (method : MethodRef) (g : Generator) : Option Local :=
  method.returnType.map fun type => ⟨UInt16.ofNat g.locals.length, type⟩

theorem Hooks.declareResult_eq (method : MethodRef) (g : Generator) :
    declareResult method g =
      (resultSlot? method g, { g with locals := g.locals ++ method.returnType.toList }) := by
  unfold declareResult resultSlot?
  cases method.returnType with
  | none => simp
  | some type => rfl

theorem Hooks.epilogue_eq_ok_iff {method : MethodRef} {hooks : List MethodRef}
    {result? : Option Local} {back : List NativeInstruction} :
    epilogue method hooks result? = .ok back ↔ ∃ calls, after method hooks result? = .ok calls ∧
      back = (result?.toList.map fun slot => { opcode := Opcode.stloc, operand := .local slot })
        ++ (calls ++ (result?.toList.map loadResult ++ [{ opcode := Opcode.ret }])) := by
  unfold epilogue
  simp only [bind_eq_ok_iff, pure_eq_ok_iff, List.append_assoc]
  constructor
  · rintro ⟨calls, hcalls, rfl⟩
    exact ⟨calls, hcalls, rfl⟩
  · rintro ⟨calls, hcalls, rfl⟩
    exact ⟨calls, hcalls, rfl⟩

/-- The code behind a body is not empty, as it returns. -/
theorem Hooks.length_epilogue_pos {method : MethodRef} {hooks : List MethodRef}
    {result? : Option Local} {back : List NativeInstruction}
    (h : epilogue method hooks result? = .ok back) : 0 < back.length := by
  obtain ⟨calls, -, rfl⟩ := epilogue_eq_ok_iff.1 h
  simp only [List.length_append, List.length_cons]
  omega

section

variable {A : Halt → Prop} {callee : Callee} {p : Program} {pc : Nat} {f : Frame}
  {method : MethodRef} {hooks : List MethodRef} {calls : List NativeInstruction}
  (fuel : Nat) (op : Opcode)

/-- A return gives what the frame returns. -/
theorem loop_of_holds_ret {code : List NativeInstruction} {v? : Option Value} {g : Frame}
    (h : p.Holds pc ({ opcode := Opcode.ret } :: code))
    (hresult : ∀ op, f.result op = .ok (g, v?)) :
    FollowedBy A (· = ·) (pure v?) (loop callee p (fuel + 1) pc f) := by
  obtain ⟨i, hi, hop, -⟩ := h.head
  rw [Machine.loop_ret hi hop, hresult]
  exact .modify_right (fun _ => rfl) (followedBy_pure rfl)

/-- Behind a body without a result, the hooks are called and nothing is returned. -/
theorem followedBy_epilogue_none (hcallee : callee.Steady) (hmethod : f.method = method)
    (hreturns : method.returnsValue = false) (hafter : Hooks.after method hooks none = .ok calls)
    (h : p.Holds pc (calls ++ [{ opcode := Opcode.ret }])) (hargs : f.args.length = method.argSlots)
    (hslots : method.argSlots ≤ 65536) :
    FollowedBy A (· = ·) (ExecM.ofExcept (f.result op) >>= Hooks.finish callee hooks)
      (loop callee p (calls.length + 1 + fuel) pc f) := by
  have hresult (op : Opcode) : f.result op = .ok (f, none) := by
    unfold Frame.result
    rw [hmethod, hreturns]
    rfl
  obtain ⟨codes, rfl, hmakes⟩ := makes_of_after f none hafter hargs hslots .nil
  rw [hresult, Nat.add_assoc, Nat.add_comm 1]
  exact followedBy_calls hcallee hmakes h.left (loop_of_holds_ret fuel h.right hresult)

/-- Behind a body with a result, the result is saved, the hooks are called and the result is
returned. -/
theorem followedBy_epilogue_some {slot : Local} {z : Value} (hcallee : callee.Steady)
    (hmethod : f.method = method) (hreturns : method.returnsValue = true)
    (hafter : Hooks.after method hooks (some slot) = .ok calls)
    (h : p.Holds pc ({ opcode := Opcode.stloc, operand := .local slot } ::
      (calls ++ [Hooks.loadResult slot, { opcode := Opcode.ret }])))
    (hslot : slot.index.toNat = f.locals.length) (hargs : f.args.length = method.argSlots)
    (hslots : method.argSlots ≤ 65536) :
    FollowedBy A (· = ·) (ExecM.ofExcept (f.result op) >>= Hooks.finish callee hooks)
      (loop callee p (calls.length + 3 + fuel) pc (f.extend [z])) := by
  obtain ⟨method, args, locals, stack⟩ := f
  obtain rfl : method = _ := hmethod
  cases stack with
  | nil =>
    -- there is no result, neither to return nor to save
    obtain ⟨i, hi, hop, hoperand⟩ := h.head_local
    have hstore : Operation.ofOpcode? i.opcode = some (.storeLocal none) := hop
    have hleft : Frame.result ⟨method, args, locals, []⟩ op =
        .error (.stackUnderflow method op) := by
      simp only [Frame.result, hreturns, if_true]
      rfl
    have hright : Machine.step callee (Frame.extend [z] ⟨method, args, locals, []⟩) i =
        ExecM.fail (.stackUnderflow method i.opcode) := by
      simp only [Machine.step, hstore, Frame.execute, Frame.localSlot, hoperand]
      rfl
    rw [hleft, show calls.length + 3 + fuel = calls.length + 2 + fuel + 1 by omega,
      Machine.loop_step hi, hright]
    exact .modify_right (fun _ => rfl) (followedBy_throw (.of_ne (by simp) (by simp)))
  | cons v rest =>
    let g : Frame := ⟨method, args, locals, rest⟩
    have hresult : Frame.result ⟨method, args, locals, v :: rest⟩ op = .ok (g, some v) := by
      simp only [Frame.result, hreturns, if_true]
      rfl
    -- the result takes the place of the slot's first value
    have hset : { g.extend [z] with locals := (locals ++ [z]).set slot.index.toNat v } =
        g.extend [v] := by
      simp [g, Frame.extend, hslot]
    have hsave := Machine.leadsTo_storeLocal callee (f := g.extend [z]) (v := v) h (by
      show slot.index.toNat < (locals ++ [z]).length
      rw [hslot, List.length_append]
      exact Nat.lt_succ_self _)
    have hsaved : (g.extend [v]).locals[slot.index.toNat]? = some v := by
      show (locals ++ [v])[slot.index.toNat]? = some v
      rw [hslot]
      exact List.getElem?_concat_length
    obtain ⟨codes, rfl, hmakes⟩ := makes_of_after (g.extend [v]) (some v) hafter hargs
      hslots (.cons hsaved .nil)
    -- behind the calls the slot still holds the result
    have hload := Machine.leadsTo_loadLocal callee h.tail.right hsaved
    have hreturn (op : Opcode) :
        ((g.extend [v]).push v).result op = .ok (g.extend [v], some v) := by
      simp only [Frame.result, Frame.push, Frame.extend, g, hreturns, if_true]
      rfl
    rw [hresult, show codes.flatten.length + 3 + fuel =
      1 + (codes.flatten.length + (1 + (fuel + 1))) by omega]
    refine hsave.followedBy ?_
    show FollowedBy A _ _ (loop callee p _ _
      { g.extend [z] with locals := (locals ++ [z]).set slot.index.toNat v })
    rw [hset]
    refine followedBy_calls hcallee hmakes h.tail.left (hload.followedBy ?_)
    exact loop_of_holds_ret fuel h.tail.right.tail hreturn

/-- **Behind a body, what is left to do is done.**  The code finishes what the body has returned, in
the frame of the body with the locals that are declared behind those of the body. -/
theorem followedBy_epilogue {g : Generator} {back : List NativeInstruction} {extra : List Value}
    (hcallee : callee.Steady) (hmethod : f.method = method)
    (hepilogue : Hooks.epilogue method hooks (Hooks.resultSlot? method g) = .ok back)
    (h : p.Holds pc back) (hlocals : f.locals.length = g.locals.length)
    (hroom : g.locals.length < 65536) (hextra : extra.length = method.returnType.toList.length)
    (hargs : f.args.length = method.argSlots) (hslots : method.argSlots ≤ 65536) :
    FollowedBy A (· = ·) (ExecM.ofExcept (f.result op) >>= Hooks.finish callee hooks)
      (loop callee p (back.length + fuel) pc (f.extend extra)) := by
  obtain ⟨calls, hafter, rfl⟩ := Hooks.epilogue_eq_ok_iff.1 hepilogue
  unfold Hooks.resultSlot? at h hafter ⊢
  cases hreturn : method.returnType with
  | none =>
    rw [hreturn] at hextra hafter h
    obtain rfl : extra = [] := List.length_eq_zero_iff.1 hextra
    have hreturns : method.returnsValue = false := by rw [MethodRef.returnsValue, hreturn]; rfl
    have := followedBy_epilogue_none (A := A) fuel op hcallee hmethod hreturns hafter h hargs hslots
    rw [Frame.extend_nil]
    simpa using this
  | some type =>
    rw [hreturn] at hextra hafter h
    obtain ⟨z, rfl⟩ := List.length_eq_one_iff.1 hextra
    have hreturns : method.returnsValue = true := by rw [MethodRef.returnsValue, hreturn]; rfl
    have hslot : (UInt16.ofNat g.locals.length).toNat = f.locals.length := by
      rw [hlocals]
      exact UInt16.toNat_ofNat_of_lt' hroom
    have := followedBy_epilogue_some (A := A) (z := z) fuel op hcallee hmethod hreturns hafter h
      hslot hargs hslots
    simpa [Nat.add_comm, Nat.add_left_comm, Nat.add_assoc] using this

end

end MethodWeave
