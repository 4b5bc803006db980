import MethodWeave.Proofs.Host.Stepping
/-!
Programs that stand in larger programs, and runs through them.

A program stands in another one if each of its instructions but the returns has one that acts alike
at a fixed distance, with jumps to the same places.  Main result: `loop_embeds`, the run through the
larger program follows the run through the program up to its end, and from there on what is said of
its returns.
-/

namespace MethodWeave

/-- The labels mark places at distance `d`. -/
def SamePlace (d : Nat) (p p' : Machine.Program) (l l' : Label) : Prop :=
  ∃ place, p.targets.lookup l = some place ∧ p'.targets.lookup l' = some (d + place)

/-- The program `p` stands in `p'` from place `d` on, except for its returns. -/
def Machine.Program.Embeds (d : Nat) (p p' : Program) : Prop :=
  ∀ pc i, p.code[pc]? = some i → Operation.ofOpcode? i.opcode ≠ some .ret →
    ∃ i', p'.code[d + pc]? = some i' ∧ i.ActsLike (SamePlace d p p') i'

namespace Machine

variable {callee : Callee} {p p' : Program}

/-- Step through a program from `pc` on, like `loop`, and give the last frame with the result. -/
def loopFrame (callee : Callee) (p : Program) :
    (fuel : Nat) → (pc : Nat) → Frame → ExecM (Frame × Option Value)
  | 0, _, _ => throw .outOfFuel
  | fuel + 1, pc, f => do
    match p.code[pc]? with
    | none => ExecM.fail (.fellThrough f.method)
    | some i =>
      modify (traceStep f.method pc i)
      let (next, flow) ← step callee f i
      match flow with
      | .next => loopFrame callee p fuel (pc + 1) next
      | .jump l =>
        match p.targets.lookup l with
        | some target => loopFrame callee p fuel target next
        | none => ExecM.fail (.invalidTarget f.method l)
      | .return v? => return (next, v?)

/-- The loop gives the result of the run and forgets the frame. -/
theorem loop_eq (fuel pc : Nat) (f : Frame) :
    loop callee p fuel pc f = loopFrame callee p fuel pc f >>= fun x => pure x.2 := by
  induction fuel generalizing pc f with
  | zero => rfl
  | succ fuel ih =>
    simp only [loop, loopFrame]
    cases p.code[pc]? with
    | none => rfl
    | some i =>
      simp only [bind_assoc]
      refine congrArg (modify (traceStep f.method pc i) >>= ·) (funext fun _ => ?_)
      refine congrArg (step callee f i >>= ·) (funext ?_)
      rintro ⟨next, flow⟩
      cases flow with
      | next => exact ih (pc + 1) next
      | jump l =>
        simp only
        cases p.targets.lookup l with
        | none => rfl
        | some target => exact ih target next
      | «return» v? => rfl

/-! ### One step of a loop -/

section

variable {fuel pc : Nat} {f : Frame} {i : Instruction}

theorem loop_end (h : p.code[pc]? = none) :
    loop callee p (fuel + 1) pc f = ExecM.fail (.fellThrough f.method) := by
  simp only [loop, h]

/-- What a loop does behind a step, with the steps that are left. -/
def goOn (callee : Callee) (p : Program) (fuel pc : Nat) (f : Frame) (x : Frame × Flow) :
    ExecM (Option Value) :=
  match x.2 with
  | .next => loop callee p fuel (pc + 1) x.1
  | .jump l =>
    match p.targets.lookup l with
    | some target => loop callee p fuel target x.1
    | none => ExecM.fail (.invalidTarget f.method l)
  | .return v? => pure v?

theorem loop_step (h : p.code[pc]? = some i) :
    loop callee p (fuel + 1) pc f =
      modify (traceStep f.method pc i) >>= fun _ => step callee f i >>= goOn callee p fuel pc f := by
  simp only [loop, h]
  rfl

/-- Going on forgets no calls if the steps that are left forget none. -/
theorem onlyAdds_goOn (hloop : ∀ pc f, OnlyAdds (loop callee p fuel pc f)) (x : Frame × Flow) :
    OnlyAdds (goOn callee p fuel pc f x) := by
  obtain ⟨next, flow⟩ := x
  cases flow with
  | next => exact hloop (pc + 1) next
  | jump l =>
    simp only [goOn]
    cases p.targets.lookup l with
    | none => exact onlyAdds_throw _
    | some target => exact hloop target next
  | «return» v? => exact onlyAdds_pure _

/-- A return in a frame. -/
theorem step_ret {f : Frame} {i : Instruction} (h : Operation.ofOpcode? i.opcode = some .ret) :
    step callee f i =
      ExecM.ofExcept (f.result i.opcode) >>= fun x => pure (x.1, .return x.2) := by
  unfold step
  simp only [h, Frame.execute_ret]
  cases f.result i.opcode <;> rfl

theorem loop_ret (h : p.code[pc]? = some i) (hret : Operation.ofOpcode? i.opcode = some .ret) :
    loop callee p (fuel + 1) pc f =
      modify (traceStep f.method pc i) >>= fun _ =>
        ExecM.ofExcept (f.result i.opcode) >>= fun x => pure x.2 := by
  rw [loop_step h, step_ret hret]
  simp only [bind_assoc, pure_bind]
  rfl

end

/-! ### Whole runs -/

/-- Stepping forgets no calls, however many steps are left. -/
theorem onlyAdds_loop (hcallee : callee.Steady) (fuel pc : Nat) (f : Frame) :
    OnlyAdds (loop callee p fuel pc f) := by
  induction fuel generalizing pc f with
  | zero => exact onlyAdds_throw _
  | succ fuel ih =>
    cases hi : p.code[pc]? with
    | none =>
      rw [loop_end hi]
      exact onlyAdds_throw _
    | some i =>
      rw [loop_step hi]
      exact OnlyAdds.modify_bind (fun _ => rfl)
        ((onlyAdds_step hcallee f i).bind fun x => onlyAdds_goOn ih x)

section

variable {A : Halt → Prop} {γ : Type} {R : γ → Option Value → Prop}
  {extra : List Value} {k d : Nat} {K : Frame × Option Value → ExecM γ} {start : Frame}

/-- **A run through a larger program.**  Suppose that `p` stands in `p'`, and that the larger
program goes on from a return of `p` as `K` does, and from the end of `p` as a failure does.  Then
the run through `p'`, with `k` more steps and further locals, follows the run through `p` and `K`.
When the run through `p` runs out of steps, the runs end together only for `k = 0`. -/
theorem loop_embeds (hembeds : p.Embeds d p') (hcallee : callee.Steady)
    (hslots : start.AstrayBeyond A extra) (hfuel : A .outOfFuel ∨ k = 0)
    (hend : ∀ pc (f : Frame) j, f.fixed = start.fixed → p.code[pc]? = none →
      FollowedBy A R (ExecM.fail (.fellThrough f.method) : ExecM γ)
        (loop callee p' (k + j + 1) (d + pc) (f.extend extra)))
    (hreturn : ∀ pc i (f : Frame) j, f.fixed = start.fixed → p.code[pc]? = some i →
      Operation.ofOpcode? i.opcode = some .ret →
      FollowedBy A R (ExecM.ofExcept (f.result i.opcode) >>= K)
        (loop callee p' (k + j + 1) (d + pc) (f.extend extra)))
    (fuel pc : Nat) (f : Frame) (hf : f.fixed = start.fixed) :
    FollowedBy A R (loopFrame callee p fuel pc f >>= K)
      (loop callee p' (k + fuel) (d + pc) (f.extend extra)) := by
  -- along both runs the larger frame stays the smaller one with `extra` behind its locals
  induction fuel generalizing pc f with
  | zero =>
    rcases hfuel with hA | rfl
    · exact followedBy_of_astray hA (onlyAdds_loop hcallee _ _ _)
    · exact followedBy_throw .outOfFuel
  | succ fuel ih =>
    cases hi : p.code[pc]? with
    | none =>
      have hleft : loopFrame callee p (fuel + 1) pc f >>= K =
          ExecM.fail (.fellThrough f.method) := by
        simp only [loopFrame, hi]
        rfl
      rw [hleft]
      exact hend pc f fuel hf hi
    | some i =>
      by_cases hret : Operation.ofOpcode? i.opcode = some .ret
      · have hleft : loopFrame callee p (fuel + 1) pc f >>= K =
            modify (traceStep f.method pc i) >>= fun _ =>
              ExecM.ofExcept (f.result i.opcode) >>= K := by
          simp only [loopFrame, hi, step_ret hret, bind_assoc, pure_bind]
        rw [hleft]
        exact .modify_left (fun _ => rfl) (hreturn pc i f fuel hf hi hret)
      · obtain ⟨i', hi', halike⟩ := hembeds pc i hi hret
        rw [← Nat.add_assoc, loop_step hi']
        simp only [loopFrame, hi, bind_assoc]
        refine .modify_left (fun _ => rfl) (.modify_right (fun _ => rfl) ?_)
        refine ((step_extend hcallee (hslots.of_fixed hf) halike hret).and_result
          fun t x u h => (fixed_of_step h).trans hf).bind ?_ fun x =>
            onlyAdds_goOn (onlyAdds_loop hcallee _) x
        rintro ⟨next, flow⟩ ⟨_, flow'⟩ ⟨⟨rfl, hflow⟩, hnext⟩
        cases hflow with
        | next => exact ih (pc + 1) next hnext
        | jump hplace =>
          obtain ⟨place, hl, hl'⟩ := hplace
          simp only [goOn, hl, hl']
          exact ih place next hnext

end

end Machine

end MethodWeave
