import MethodWeave.Host.Installer
import MethodWeave.Proofs.Host.Epilogue
/-!
Bodies with hooks around them.

A stream stands in the wrapped one behind the code in front of it.  Without hooks that run after it
its returns stay, and otherwise they go to the code behind it.  Main results:
`followedBy_unsuffixed` and `followedBy_suffixed`, the run through a wrapped body follows the run
through the body and what is left to do behind it; and `followedBy_to_end`, nothing else is called
before the body ends.
-/

namespace MethodWeave

open Machine (Program loop loopFrame LeadsTo)

/-! ### The instructions of hooks -/

/-- The instructions that the calls of hooks are made of, with a slot for the result or none. -/
inductive Hooks.InCode (hooks : List MethodRef) (result? : Option Local) : NativeInstruction → Prop
  | loadArgument (i : Nat) :
    InCode hooks result? { opcode := Opcode.ldarg, operand := .argument (UInt16.ofNat i) }
  | loadResult {slot : Local} : result? = some slot → InCode hooks result? (loadResult slot)
  | call {hook : MethodRef} : hook ∈ hooks →
    InCode hooks result? { opcode := Opcode.call, operand := .member (.method hook) }
  | drop : InCode hooks result? { opcode := Opcode.pop }
  | saveResult {slot : Local} : result? = some slot →
    InCode hooks result? { opcode := Opcode.stloc, operand := .local slot }
  | ret : InCode hooks result? { opcode := Opcode.ret }

namespace Hooks

variable {method : MethodRef} {hooks : List MethodRef} {result? : Option Local}

theorem inCode_call {hook : MethodRef} (hhook : hook ∈ hooks) (count : Nat) {passed? : Option Local}
    (hpassed : ∀ slot, passed? = some slot → result? = some slot) :
    ∀ n ∈ call hook count passed?, InCode hooks result? n := by
  simp only [call, loadArguments, List.forall_mem_append, List.forall_mem_map]
  refine ⟨⟨⟨fun i _ => .loadArgument i, fun slot hslot => ?_⟩, ?_⟩, ?_⟩
  · exact .loadResult (hpassed slot (Option.mem_toList.1 hslot))
  · exact List.forall_mem_singleton.2 (.call hhook)
  · split
    · exact List.forall_mem_singleton.2 .drop
    · exact List.forall_mem_nil _

theorem inCode_after {calls : List NativeInstruction} (h : after method hooks result? = .ok calls) :
    ∀ n ∈ calls, InCode hooks result? n := by
  simp only [after, bind_eq_ok_iff, mapM_eq_ok_iff, pure_eq_ok_iff] at h
  obtain ⟨codes, hcodes, rfl⟩ := h
  intro n hn
  obtain ⟨code, hcode, hn⟩ := List.mem_flatten.1 hn
  obtain ⟨hook, hhook, hcall⟩ := exists_of_mem_right hcodes hcode
  split at hcall
  · cases hcall
    refine inCode_call hhook _ ?_ n hn
    exact nofun
  · split at hcall <;> cases hcall
    exact inCode_call hhook _ (fun _ => id) n hn

theorem inCode_before {front : List NativeInstruction} (h : before method hooks = .ok front) :
    ∀ n ∈ front, InCode hooks none n :=
  inCode_after ((before_eq method hooks).symm.trans h)

theorem inCode_epilogue {back : List NativeInstruction}
    (h : epilogue method hooks result? = .ok back) : ∀ n ∈ back, InCode hooks result? n := by
  obtain ⟨calls, hcalls, rfl⟩ := epilogue_eq_ok_iff.1 h
  simp only [List.forall_mem_append, List.forall_mem_map]
  refine ⟨fun slot hslot => .saveResult (Option.mem_toList.1 hslot), inCode_after hcalls,
    fun slot hslot => .loadResult (Option.mem_toList.1 hslot), ?_⟩
  exact List.forall_mem_singleton.2 .ret

/-- The slot for the result is the last one, as long as slot numbers do not run out. -/
theorem resultSlot?_declared {g : Generator} (hroom : g.locals.length < 65536) {slot : Local}
    (h : resultSlot? method g = some slot) :
    (g.locals ++ method.returnType.toList)[slot.index.toNat]? = some slot.type := by
  obtain ⟨type, htype, rfl⟩ := Option.map_eq_some_iff.1 h
  have hindex : (UInt16.ofNat g.locals.length).toNat = g.locals.length :=
    UInt16.toNat_ofNat_of_lt' hroom
  rw [htype, hindex]
  exact List.getElem?_concat_length

end Hooks

/-! ### Wrapped streams -/

/-- A stream between code in front of it and code behind it, to which its returns go. -/
def Hooks.enclosed (front stream : List NativeInstruction) (label : NativeLabel)
    (back : List NativeInstruction) : List NativeInstruction :=
  front ++ stream.map (redirect label) ++ beginWith label (openRegions stream) back

/-- What the calls of hooks are put around. -/
theorem Hooks.wrap_cases {method : MethodRef} {request : PatchRequest}
    {stream wrapped : List NativeInstruction} {g g' : Generator}
    (h : wrap method stream request g = .ok (wrapped, g')) :
    ∃ front, before method request.prefixes = .ok front ∧
      ((request.suffixes = [] ∧ wrapped = front ++ stream ∧ g'.locals = g.locals) ∨
        (request.suffixes ≠ [] ∧ g'.locals = g.locals ++ method.returnType.toList ∧ ∃ back,
          epilogue method request.suffixes (resultSlot? method g) = .ok back ∧
            wrapped = enclosed front stream ⟨g.nextLabel⟩ back)) := by
  unfold wrap at h
  obtain ⟨front, hfront, h⟩ := bind_eq_ok_iff.1 h
  refine ⟨front, hfront, ?_⟩
  split at h
  · next hempty =>
    obtain ⟨rfl, rfl⟩ := Prod.mk.inj (pure_eq_ok_iff.1 h)
    exact .inl ⟨List.isEmpty_iff.1 hempty, rfl, rfl⟩
  · next hsome =>
    simp only [declareResult_eq, Generator.defineLabel] at h
    obtain ⟨back, hback, h⟩ := bind_eq_ok_iff.1 h
    obtain ⟨rfl, rfl⟩ := Prod.mk.inj (pure_eq_ok_iff.1 h)
    exact .inr ⟨fun hnil => hsome (List.isEmpty_iff.2 hnil), rfl, back, hback, rfl⟩

/-- The stream that hooks are put around. -/
theorem hooked_cases {method : MethodRef} {request : PatchRequest}
    {stream wrapped : List NativeInstruction} {g g' : Generator}
    (h : Host.hooked method request stream g = .ok (wrapped, g')) :
    ∃ front, Hooks.before method request.prefixes = .ok front ∧
      ((request.suffixes = [] ∧ wrapped = front ++ stream ∧ g'.locals = g.locals) ∨
        (request.suffixes ≠ [] ∧ g'.locals = g.locals ++ method.returnType.toList ∧ ∃ back,
          Hooks.epilogue method request.suffixes (Hooks.resultSlot? method g) = .ok back ∧
            wrapped = Hooks.enclosed front stream ⟨g.nextLabel⟩ back)) := by
  unfold Host.hooked at h
  split at h
  · next hempty =>
    cases h
    simp only [Bool.and_eq_true, List.isEmpty_iff] at hempty
    refine ⟨[], ?_, .inl ⟨hempty.2, rfl, rfl⟩⟩
    rw [hempty.1]
    rfl
  · exact Hooks.wrap_cases h

/-- The instructions of a stream behind others. -/
theorem getElem?_behind {front stream : List NativeInstruction} {place : Nat} :
    (front ++ stream)[front.length + place]? = stream[place]? := by
  rw [List.getElem?_append_right (by omega), Nat.add_sub_cancel_left]

theorem standsIn_append (front stream : List NativeInstruction) :
    StandsIn stream (front ++ stream) front.length := by
  intro place n hn
  exact ⟨n, getElem?_behind.trans hn, rfl, fun _ => ⟨rfl, rfl⟩⟩

section

variable (front stream : List NativeInstruction) (label : NativeLabel)
  (back : List NativeInstruction)

/-- The instructions of an enclosed stream. -/
theorem getElem?_enclosed {place : Nat} {n : NativeInstruction} (hn : stream[place]? = some n) :
    (Hooks.enclosed front stream label back)[front.length + place]? =
      some (Hooks.redirect label n) := by
  have hlt := (List.getElem?_eq_some_iff.1 hn).1
  rw [Hooks.enclosed, List.append_assoc, getElem?_behind,
    List.getElem?_append_left (by rw [List.length_map]; exact hlt), List.getElem?_map, hn]
  rfl

theorem standsIn_enclosed :
    StandsIn stream (Hooks.enclosed front stream label back) front.length := by
  intro place n hn
  refine ⟨_, getElem?_enclosed front stream label back hn, ?_⟩
  unfold Hooks.redirect
  split
  · next hret => exact ⟨rfl, fun hne => absurd hret hne⟩
  · exact ⟨rfl, fun _ => ⟨rfl, rfl⟩⟩

/-- The code behind an enclosed stream, up to labels and markers; its first instruction has the
label. -/
theorem getElem?_back {j : Nat} {n : NativeInstruction} (hn : back[j]? = some n) :
    ∃ n', (Hooks.enclosed front stream label back)[front.length + stream.length + j]? = some n' ∧
      n'.opcode = n.opcode ∧ n'.operand = n.operand ∧ (j = 0 → label ∈ n'.labels) := by
  have hlength : front.length + stream.length =
      (front ++ stream.map (Hooks.redirect label)).length := by
    rw [List.length_append, List.length_map]
  rw [Hooks.enclosed, hlength, getElem?_behind]
  cases back with
  | nil => cases hn
  | cons first rest =>
    cases j with
    | zero =>
      cases hn
      exact ⟨_, rfl, rfl, rfl, fun _ => List.mem_append_right _ (List.mem_singleton_self label)⟩
    | succ j => exact ⟨n, hn, rfl, rfl, nofun⟩

end

/-! ### Runs -/

section

variable {A : Halt → Prop} {callee : Callee} {p q : Program} {method : MethodRef}
  {stream wrapped front : List NativeInstruction} {f : Frame} {fuel : Nat}

/-- The place behind the end of a program is behind the end of the program that it stands at the end
of. -/
theorem code_eq_none_of_append (hp : p.Runs stream) (hq : q.Runs (front ++ stream)) {pc : Nat}
    (hend : p.code[pc]? = none) : q.code[front.length + pc]? = none := by
  rw [← Array.getElem?_toList, List.getElem?_eq_none_iff, ← hp.length_eq] at hend
  rw [← Array.getElem?_toList, List.getElem?_eq_none_iff, ← hq.length_eq, List.length_append]
  omega

/-- **Hooks in front of a body only.**  Behind them the run is the run through the body. -/
theorem followedBy_unsuffixed (hp : p.Runs stream) (hq : q.Runs (front ++ stream))
    (hnodup : ((front ++ stream).flatMap (·.labels)).Nodup) (hcallee : callee.Steady) :
    FollowedBy A (· = ·) (loopFrame callee p fuel 0 f >>= Hooks.finish callee [])
      (loop callee q fuel front.length f) := by
  have hembeds := embeds_of_runs hp hq hnodup (standsIn_append front stream)
  have hbare := Machine.loop_embeds (A := A) (R := (· = ·)) (K := Hooks.finish callee []) hembeds
    hcallee (Frame.astrayBeyond_nil A f) (.inr rfl) ?_ ?_ fuel 0 f rfl
  · rwa [Frame.extend_nil, Nat.zero_add, Nat.add_zero] at hbare
  · -- at the end of the body is the end of the whole
    intro pc g j hg hend
    rw [Machine.loop_end (code_eq_none_of_append hp hq hend)]
    exact followedBy_throw (.refl _)
  · intro pc i g j hg hi hret
    obtain ⟨n, hn, hruns⟩ := hp.exists_native hi
    obtain ⟨i', hi', hruns'⟩ := hq.exists_code (getElem?_behind.trans hn)
    have hret' : Operation.ofOpcode? i'.opcode = some .ret := by
      rw [hruns'.form.operation, ← hruns.form.operation, hret]
    rw [Machine.loop_ret hi' hret']
    refine .modify_right (fun _ => rfl) ?_
    refine (followedBy_ofExcept (Frame.result_extend (.like _ _))).bind ?_ fun _ => onlyAdds_pure _
    rintro ⟨g', v?⟩ _ rfl
    exact followedBy_pure rfl

/-- A return of the body jumps to the code behind it. -/
theorem leadsTo_back {label : NativeLabel} {back : List NativeInstruction} (hp : p.Runs stream)
    (hq : q.Runs (Hooks.enclosed front stream label back))
    (hnodup : ((Hooks.enclosed front stream label back).flatMap (·.labels)).Nodup)
    (hback : 0 < back.length) {pc : Nat} {i : Instruction} (hi : p.code[pc]? = some i)
    (hret : Operation.ofOpcode? i.opcode = some .ret) (callee : Callee) (g : Frame) :
    LeadsTo callee q 1 (front.length + pc) g (front.length + stream.length) g := by
  obtain ⟨n, hn, hruns⟩ := hp.exists_native hi
  have hopcode : n.opcode = .ret := Operation.eq_ret (by rw [← hruns.form.operation, hret])
  have hn' := getElem?_enclosed front stream label back hn
  rw [Hooks.redirect, if_pos hopcode] at hn'
  obtain ⟨i', hi', hruns'⟩ := hq.exists_code hn'
  obtain ⟨payload, hpayload, hrelated⟩ := hruns'.operand
  cases hrelated with
  | @label _ l hmark =>
    have hoperand : i'.operand = .branchTarget (some l) := Operand.eq_of_payload? hpayload
    have hbranch : Operation.ofOpcode? i'.opcode = some .branch := hruns'.form.operation
    obtain ⟨place, m, hm, hlabel, hl⟩ := hmark
    -- the label marks the first instruction behind the body and no other
    obtain ⟨m', hm', -, -, hlabel'⟩ :=
      getElem?_back front stream label back (List.getElem?_eq_getElem hback)
    have hplace := index_eq_of_nodup_flatMap hnodup hm hm' hlabel (hlabel' rfl)
    rw [hplace] at hl
    refine Machine.leadsTo_jump hi' ?_ hl
    simp only [Machine.step, hbranch, Frame.execute, Frame.branch, hoperand]
    rfl

/-- **Hooks behind a body.**  Every return of the body goes to the code behind it. -/
theorem followedBy_suffixed {label : NativeLabel} {g : Generator} {back : List NativeInstruction}
    {hooks : List MethodRef} {extra : List Value} (hp : p.Runs stream)
    (hq : q.Runs (Hooks.enclosed front stream label back))
    (hnodup : ((Hooks.enclosed front stream label back).flatMap (·.labels)).Nodup)
    (hcallee : callee.Steady)
    (hback : Hooks.epilogue method hooks (Hooks.resultSlot? method g) = .ok back)
    (hmethod : f.method = method) (hlocals : f.locals.length = g.locals.length)
    (hroom : g.locals.length < 65536) (hextra : extra.length = method.returnType.toList.length)
    (hargs : f.args.length = method.argSlots) (hslots : method.argSlots ≤ 65536)
    (hbeyond : f.AstrayBeyond A extra) (hfuel : A .outOfFuel)
    (hend : A (.failed (.fellThrough method))) :
    FollowedBy A (· = ·) (loopFrame callee p fuel 0 f >>= Hooks.finish callee hooks)
      (loop callee q (back.length + fuel) front.length (f.extend extra)) := by
  have hembeds := embeds_of_runs hp hq hnodup (standsIn_enclosed front stream label back)
  have hholds : q.Holds (front.length + stream.length) back := hq.holds fun j n hn => by
    obtain ⟨n', hn', hopcode, hoperand, -⟩ := getElem?_back front stream label back hn
    exact ⟨n', hn', hopcode, hoperand⟩
  have hrun := Machine.loop_embeds (A := A) (R := (· = ·)) (K := Hooks.finish callee hooks)
    (k := back.length) hembeds hcallee hbeyond (.inl hfuel) ?_ ?_ fuel 0 f rfl
  · rwa [Nat.add_zero] at hrun
  · -- behind the end of the body there is code, so nothing is said of such a run
    intro pc h j hh hnone
    have hm : h.method = method := (congrArg (·.1) hh).trans hmethod
    rw [hm]
    exact followedBy_of_astray hend (Machine.onlyAdds_loop hcallee _ _ _)
  · intro pc i h j hh hi hret
    obtain ⟨hm, ha, hl⟩ : h.method = f.method ∧ h.args.length = f.args.length ∧
        h.locals.length = f.locals.length := by simpa only [Frame.fixed, Prod.mk.injEq] using hh
    -- the return jumps to the code behind, and that finishes
    have hjump := leadsTo_back hp hq hnodup (Hooks.length_epilogue_pos hback) hi hret callee
      (h.extend extra)
    rw [Nat.add_comm (back.length + j)]
    exact hjump.followedBy (followedBy_epilogue _ _ hcallee (hm.trans hmethod) hback hholds
      (hl.trans hlocals) hroom hextra (ha.trans hargs) hslots)

/-- **Up to its end a body calls what it called before.**  Should it not come to an end within a
number of steps, neither does the wrapped one. -/
theorem followedBy_to_end (e : ExecError) (fuel : Nat) (f : Frame) {d : Nat} (hp : p.Runs stream)
    (hq : q.Runs wrapped) (hnodup : (wrapped.flatMap (·.labels)).Nodup)
    (hstands : StandsIn stream wrapped d) (hcallee : callee.Steady) (extra : List Value) :
    FollowedBy (· ≠ .outOfFuel) (fun (_ : Unit) _ => False)
      (loopFrame callee p fuel 0 f >>= fun _ => ExecM.fail e)
      (loop callee q fuel d (f.extend extra)) := by
  have hslots : f.AstrayBeyond (· ≠ .outOfFuel) extra := fun op slot _ _ => by simp
  have hrun := Machine.loop_embeds (R := fun (_ : Unit) _ => False) (K := fun _ => ExecM.fail e)
    (k := 0) (embeds_of_runs hp hq hnodup hstands) hcallee hslots (.inr rfl) ?_ ?_ fuel 0 f rfl
  · rwa [Nat.zero_add] at hrun
  · intro pc g j hg hend
    exact followedBy_of_astray nofun (Machine.onlyAdds_loop hcallee _ _ _)
  · intro pc i g j hg hi hret
    -- a return comes to the failure, or fails itself
    cases g.result i.opcode <;>
      exact followedBy_of_astray nofun (Machine.onlyAdds_loop hcallee _ _ _)

end

end MethodWeave
