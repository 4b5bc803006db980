import MethodWeave.Proofs.Host.Programs
/-!
Bodies that are run, and calls within calls.

Running a body reads it and steps through its program, so what holds of every program of a stream
holds of a body that reads as the stream.  Main result: `steady_invokeWithin`, a module answers a
call alike whatever the log and the label numbers are.
-/

namespace MethodWeave

/-- The frame in which a body is entered. -/
def Body.frame (body : Body) (method : MethodRef) (args : List Value) : Frame :=
  { method := method, args := args, locals := body.locals.map fun t => Value.zeroOf t.name }

namespace Machine

/-! ### Reading a body -/

/-- Read a body that is to be run. -/
def readCode (metadata : MetadataTables) (body : Body) : ExecM (List Instruction) := do
  let (decoded, labels) := body.decode metadata (← get).supply
  modify fun t => { t with supply := labels.supply }
  ExecM.ofExcept (decoded.mapError .instruction)

/-- Run a body, like `runBody`, and give the last frame with the result. -/
def runFrame (metadata : MetadataTables) (fuel : Nat) (callee : Callee) (method : MethodRef)
    (body : Body) (args : List Value) : ExecM (Frame × Option Value) := do
  let code ← readCode metadata body
  loopFrame callee (.ofInstructions code) fuel 0 (body.frame method args)

variable {metadata : MetadataTables} {fuel : Nat} {callee : Callee} {method : MethodRef}
  {body : Body} {args : List Value}

theorem run_readCode (t : Trace) :
    (readCode metadata body).run t =
      match body.decode metadata t.supply with
      | (.ok code, labels) => (.ok code, { t with supply := labels.supply })
      | (.error e, labels) =>
        (.error (.failed (.instruction e)), { t with supply := labels.supply }) := by
  have hget : (get : ExecM Trace).run t = (.ok t, t) := rfl
  rw [readCode, run_bind, hget]
  generalize hread : body.decode metadata t.supply = outcome
  obtain ⟨e | code, labels⟩ := outcome <;> simp only [hread] <;> rfl

theorem runBody_eq :
    runBody metadata fuel callee method body args =
      readCode metadata body >>= fun code =>
        loop callee (.ofInstructions code) fuel 0 (body.frame method args) := by
  unfold runBody readCode
  rw [bind_assoc]
  refine congrArg (get >>= ·) (funext fun t => ?_)
  rcases body.decode metadata t.supply with ⟨e | code, labels⟩ <;> rfl

/-- Reading records nothing. -/
theorem onlyAdds_readCode : OnlyAdds (readCode metadata body) := by
  intro t
  rw [run_readCode]
  rcases body.decode metadata t.supply with ⟨e | code, labels⟩ <;> exact List.prefix_rfl

/-- A body that reads as a stream is read as some program of the stream. -/
theorem followedBy_readCode {A : Halt → Prop} {α β : Type} {R : α → β → Prop} {x : ExecM α}
    {g : List Instruction → ExecM β} {stream : List NativeInstruction}
    (hreads : body.ReadsAs metadata stream)
    (h : ∀ code, (Program.ofInstructions code).Runs stream → FollowedBy A R x (g code)) :
    FollowedBy A R x (readCode metadata body >>= g) := by
  intro t t' ht
  obtain ⟨code, labels, hread, hruns⟩ := hreads t'.supply
  rw [run_bind, run_readCode, hread]
  exact h code hruns t _ ht

/-- The same for a body that is followed. -/
theorem followedBy_of_readCode {A : Halt → Prop} {α β : Type} {R : α → β → Prop}
    {g : List Instruction → ExecM α} {y : ExecM β} {stream : List NativeInstruction}
    (hreads : body.ReadsAs metadata stream)
    (h : ∀ code, (Program.ofInstructions code).Runs stream → FollowedBy A R (g code) y) :
    FollowedBy A R (readCode metadata body >>= g) y := by
  intro t t' ht
  obtain ⟨code, labels, hread, hruns⟩ := hreads t.supply
  rw [run_bind, run_readCode, hread]
  exact h code hruns _ t' ht

/-! ### Steady answers -/

/-- Two programs of one stream run alike. -/
theorem loop_follows {stream : List NativeInstruction} {p p' : Program} (h : p.Runs stream)
    (h' : p'.Runs stream) (hnodup : (stream.flatMap (·.labels)).Nodup) (hcallee : callee.Steady)
    (fuel : Nat) (f : Frame) :
    FollowedBy (fun _ => False) (· = ·) (loop callee p fuel 0 f) (loop callee p' fuel 0 f) := by
  -- a program of the stream is embedded in any other one, in front of nothing
  have hembeds : p.Embeds 0 p' := embeds_of_runs h h' hnodup fun place n hn =>
    ⟨n, by rw [Nat.zero_add]; exact hn, rfl, fun _ => ⟨rfl, rfl⟩⟩
  rw [loop_eq]
  have hbare := loop_embeds hembeds hcallee (K := fun x => pure x.2) (R := (· = ·))
    (Frame.astrayBeyond_nil (fun _ => False) f) (.inr rfl) ?_ ?_ fuel 0 f rfl
  · rwa [Frame.extend_nil, Nat.zero_add, Nat.zero_add] at hbare
  · -- both programs end at the same place
    intro pc g j hg hend
    have hend' : p'.code[0 + pc]? = none := by
      rw [Nat.zero_add, ← Array.getElem?_toList, List.getElem?_eq_none_iff, ← h'.length_eq,
        h.length_eq]
      rw [← Array.getElem?_toList, List.getElem?_eq_none_iff] at hend
      exact hend
    rw [loop_end hend']
    exact followedBy_throw (.refl _)
  · -- and both return at the same place
    intro pc i g j hg hi hret
    obtain ⟨n, hn, hruns⟩ := h.exists_native hi
    obtain ⟨i', hi', hruns'⟩ := h'.exists_code hn
    have hret' : Operation.ofOpcode? i'.opcode = some .ret := by
      rw [hruns'.form.operation, ← hruns.form.operation, hret]
    rw [loop_ret (by rw [Nat.zero_add]; exact hi') hret']
    refine .modify_right (fun _ => rfl) ?_
    refine (followedBy_ofExcept (Frame.result_extend (.like _ _))).bind ?_ fun _ => onlyAdds_pure _
    rintro ⟨g', v?⟩ _ rfl
    exact followedBy_pure rfl

/-- A body runs alike whenever it is run. -/
theorem runBody_follows (hcallee : callee.Steady) :
    FollowedBy (fun _ => False) (· = ·) (runBody metadata fuel callee method body args)
      (runBody metadata fuel callee method body args) := by
  rw [runBody_eq]
  by_cases hread : ∃ supply code labels, body.decode metadata supply = (.ok code, labels)
  · -- whatever labels are handed out, the body reads as one stream
    obtain ⟨supply, code, labels, hread⟩ := hread
    obtain ⟨pass, stream, hpass, hlowersTo⟩ := exists_lowersTo_of_decode hread
    obtain ⟨hnodup, hreads⟩ := readsAs_of_decode hread hpass hlowersTo
    refine followedBy_of_readCode hreads fun code hruns => ?_
    refine followedBy_readCode hreads fun code' hruns' => ?_
    exact loop_follows hruns hruns' hnodup hcallee fuel _
  · -- the body is not read, whatever labels are left
    intro t t' ht
    rw [run_bind, run_bind, run_readCode, run_readCode]
    generalize hdecode : body.decode metadata t.supply = outcome
    generalize hdecode' : body.decode metadata t'.supply = outcome'
    obtain ⟨e | code, labels⟩ := outcome
    · obtain ⟨e' | code', labels'⟩ := outcome'
      · exact .halted (.of_ne nofun nofun) ht
      · exact absurd ⟨_, _, _, hdecode'⟩ hread
    · exact absurd ⟨_, _, _, hdecode⟩ hread

theorem onlyAdds_runBody (hcallee : callee.Steady) :
    OnlyAdds (runBody metadata fuel callee method body args) := by
  rw [runBody_eq]
  exact onlyAdds_readCode.bind fun code => onlyAdds_loop hcallee _ _ _

/-- Methods are entered in a steady way if calls within them are answered so. -/
theorem steady_enter (m : Module) (fuel : Nat) {nested? : Option Callee}
    (h : ∀ callee, nested? = some callee → callee.Steady) :
    Callee.Steady (enter m fuel nested?) where
  follows method args := by
    unfold enter
    split
    · exact followedBy_throw (.refl _)
    · cases m.implementation? method with
      | none => exact followedBy_throw (.refl _)
      | some implementation =>
        cases implementation with
        | native native =>
          intro t t' ht
          -- a native method records its call before it answers
          simp only [runNative]
          have hcalls : (t'.calls ++ [⟨native.name, args⟩]) = t.calls ++ [⟨native.name, args⟩] := by
            rw [ht]
          cases hrun : native.run args with
          | ok v? => exact .ok rfl hcalls
          | error e => exact .halted (.refl _) hcalls
        | managed managed =>
          cases nested? with
          | none => exact followedBy_throw (.refl _)
          | some callee => exact runBody_follows (h callee rfl)
  onlyAdds method args := by
    unfold enter
    split
    · exact onlyAdds_throw _
    · cases m.implementation? method with
      | none => exact onlyAdds_throw _
      | some implementation =>
        cases implementation with
        | native native =>
          intro t
          simp only [runNative]
          cases native.run args <;> exact List.prefix_append _ _
        | managed managed =>
          cases nested? with
          | none => exact onlyAdds_throw _
          | some callee => exact onlyAdds_runBody (h callee rfl)

/-- **A module answers calls in a steady way**, by induction on the room for nested frames. -/
theorem steady_invokeWithin (m : Module) (fuel depth : Nat) :
    Callee.Steady (invokeWithin m fuel depth) := by
  induction depth with
  | zero => exact steady_enter m fuel nofun
  | succ depth ih =>
    refine steady_enter m fuel fun callee h => ?_
    cases h
    exact ih

end Machine

end MethodWeave
