import MethodWeave.Proofs.Host.Nesting
import MethodWeave.Proofs.Host.Pacing
import MethodWeave.Proofs.Instruction.Refusals
import MethodWeave.Proofs.Padded
/-!
Running a body with padding put in.

A padded stream is the stream with instructions put in that do nothing.  Its program runs through
the padding without effect, and jumps of both programs go to the same instruction of the stream.  So
both programs keep pace (`PadsProgram.keepsPace_loop`), the padded one needing more fuel by a fixed
factor; and so do modules that differ in padded bodies (`keepsPace_invokeWithin`).
-/

namespace MethodWeave

namespace Machine

open ExecError (WidensTo)

variable {short short' : Prop} {callee callee' : Callee} {p p' : Program}
  {stream padded : List NativeInstruction} {P : NativeInstruction → Prop} {room : Nat}

/-- The labels mark places from which on the streams correspond. -/
def SameRest (P : NativeInstruction → Prop) (stream padded : List NativeInstruction)
    (p p' : Program) (l l' : Label) : Prop :=
  ∃ place place', p.targets.lookup l = some place ∧ p'.targets.lookup l' = some place' ∧
    Padded P (stream.drop place) (padded.drop place')

/-! ### Programs with padding -/

/-- The program of a stream, and that of the stream with padding put in, which stands in the first
`room` places. -/
structure PadsProgram (P : NativeInstruction → Prop) (room : Nat)
    (stream padded : List NativeInstruction) (p p' : Program) : Prop where
  corresponds : Padded P stream padded
  runs : p.Runs stream
  forms : List.Forall₂ (fun (n : NativeInstruction) (i : Instruction) => i.opcode = n.opcode)
    stream p.code.toList
  runs' : p'.Runs padded
  nodup : (padded.flatMap (·.labels)).Nodup
  nothing : ∀ n, P n → Operation.ofOpcode? n.opcode = some .nothing
  inRoom : ∀ place n, padded[place]? = some n → P n → place < room

theorem step_nothing {f : Frame} {i : Instruction}
    (h : Operation.ofOpcode? i.opcode = some .nothing) : step callee f i = pure (f, .next) := by
  unfold step
  simp only [h]
  rfl

theorem Program.Runs.code_end {place : Nat} (hp : p.Runs stream) (hend : stream[place]? = none) :
    p.code[place]? = none := by
  rw [← Array.getElem?_toList, List.getElem?_eq_none_iff, ← hp.length_eq]
  exact List.getElem?_eq_none_iff.1 hend

namespace PadsProgram

variable (h : PadsProgram P room stream padded p p')

include h

/-- What one native instruction is executed as, in the program of a stream and in that of the padded
stream, acts alike. -/
theorem actsLike {n : NativeInstruction} {i i' : Instruction} (hi : n.RunsAs stream p i)
    (hi' : n.RunsAs padded p' i') : i.ActsLike (SameRest P stream padded p p') i' := by
  refine ⟨by rw [hi'.form.operation, hi.form.operation], ?_⟩
  obtain ⟨q, hq, hmarks⟩ := hi.operand
  obtain ⟨q', hq', hmarks'⟩ := hi'.operand
  refine ⟨q, q', hq, hq', (hmarks.flip.comp hmarks').imp ?_⟩
  rintro l l' ⟨t, ⟨place, m, hm, htm, hl⟩, ⟨place', m', hm', htm', hl'⟩⟩
  -- the instruction that the native label marks stands once in the padded stream
  obtain ⟨kept, hkept, hrest⟩ := h.corresponds.exists_drop hm
  obtain rfl := index_eq_of_nodup_flatMap h.nodup hkept hm' htm htm'
  exact ⟨place, kept, hl, hl', hrest⟩

/-- An instruction of the stream is executed alike, but for the form of a branch. -/
theorem exists_kept {pc pc' : Nat} {n : NativeInstruction} (hn : stream[pc]? = some n)
    (hn' : padded[pc']? = some n) :
    ∃ i i', p.code[pc]? = some i ∧ p'.code[pc']? = some i' ∧
      ExecError.Renames WidensTo i.opcode i'.opcode ∧
      i.ActsLike (SameRest P stream padded p p') i' := by
  obtain ⟨i, hi, hruns⟩ := h.runs.exists_code hn
  obtain ⟨i', hi', hruns'⟩ := h.runs'.exists_code hn'
  have hopcode : i.opcode = n.opcode := by
    obtain ⟨j, hj, hform⟩ := exists_getElem?_left h.forms hn
    rw [Array.getElem?_toList, hi] at hj
    cases hj
    exact hform
  exact ⟨i, i', hi, hi', ExecError.renames_widensTo (by rw [hopcode]; exact hruns'.form),
    h.actsLike hruns hruns'⟩

/-- Padding is executed as an instruction that does nothing. -/
theorem exists_padding {pc' : Nat} {n : NativeInstruction} (hn' : padded[pc']? = some n)
    (hP : P n) :
    ∃ i', p'.code[pc']? = some i' ∧ Operation.ofOpcode? i'.opcode = some .nothing := by
  obtain ⟨i', hi', hruns'⟩ := h.runs'.exists_code hn'
  exact ⟨i', hi', hruns'.form.operation.trans (h.nothing n hP)⟩

/-- At an instruction of the stream both programs take one step, and keep pace if they do behind it
and wherever they jump. -/
theorem keepsPace_kept (hcallee : callee.KeepsPace short short' callee') {pc pc' : Nat}
    {n : NativeInstruction} (hn : stream[pc]? = some n) (hn' : padded[pc']? = some n)
    (hrest : Padded P (stream.drop (pc + 1)) (padded.drop (pc' + 1))) {fuel fuel' : Nat}
    (hgoOn : ∀ (place place' : Nat) (g : Frame), Padded P (stream.drop place) (padded.drop place') →
      KeepsPace WidensTo short short' (· = ·) (loop callee p fuel place g)
        (loop callee' p' fuel' place' g))
    (f : Frame) :
    KeepsPace WidensTo short short' (· = ·) (loop callee p (fuel + 1) pc f)
      (loop callee' p' (fuel' + 1) pc' f) := by
  obtain ⟨i, i', hi, hi', hE, hacts⟩ := h.exists_kept hn hn'
  by_cases hret : Operation.ofOpcode? i.opcode = some .ret
  · rw [loop_ret hi hret, loop_ret hi' (hacts.operation.trans hret)]
    exact .modify_left (fun _ => rfl) (.modify_right (fun _ => rfl) (keepsPace_result hE))
  · rw [loop_step hi, loop_step hi']
    refine .modify_left (fun _ => rfl) (.modify_right (fun _ => rfl) ?_)
    refine (keepsPace_step hcallee hE hacts hret).bind ?_
      (onlyAdds_goOn (onlyAdds_loop hcallee.steady _))
      (onlyAdds_goOn (onlyAdds_loop hcallee.steady' _))
    rintro ⟨next, flow⟩ ⟨_, flow'⟩ ⟨rfl, hflow⟩
    rw [Frame.extend_nil]
    cases hflow with
    | next => exact hgoOn (pc + 1) (pc' + 1) next hrest
    | jump hplace =>
      obtain ⟨place, place', hl, hl', hsame⟩ := hplace
      simp only [goOn, hl, hl']
      exact hgoOn place place' next hsame

/-- **A padded program keeps pace.**  Each step of the program is one step of the padded program
behind some that do nothing, all of which stand in the first `room` places. -/
theorem keepsPace_loop (hcallee : callee.KeepsPace short short' callee') (fuel fuel' pc pc' : Nat)
    (f : Frame) (hat : Padded P (stream.drop pc) (padded.drop pc')) (hshort : short ∨ fuel' ≤ fuel)
    (hshort' : short' ∨ fuel * (room + 1) + (room - pc') ≤ fuel') :
    KeepsPace WidensTo short short' (· = ·) (loop callee p fuel pc f)
      (loop callee' p' fuel' pc' f) := by
  -- on the padded run; `room - pc'` bounds the padding up to the next instruction of the stream
  induction fuel' generalizing fuel pc pc' f with
  | zero =>
    rcases hshort' with hshort' | hfuel
    · exact keepsPace_of_short' hshort' (onlyAdds_loop hcallee.steady _ _ _)
    · cases fuel with
      | zero => exact keepsPace_outOfFuel
      | succ fuel =>
        rw [Nat.succ_mul] at hfuel
        omega
  | succ fuel' ih =>
    cases fuel with
    | zero =>
      rcases hshort with hshort | hfuel
      · exact keepsPace_of_short hshort (onlyAdds_loop hcallee.steady' _ _ _)
      · omega
    | succ fuel =>
      rcases hat.cases_at with ⟨hend, hend'⟩ | ⟨n, hn, hn', hrest⟩ | ⟨n, hn', hP, hrest⟩
      · -- both programs end
        rw [loop_end (h.runs.code_end hend), loop_end (h.runs'.code_end hend')]
        exact keepsPace_fail (ExecError.widensTo_refl _)
      · -- both execute one native instruction
        refine h.keepsPace_kept hcallee hn hn' hrest (fun place place' g hat => ?_) f
        rw [Nat.succ_mul] at hshort'
        exact ih fuel place place' g hat (hshort.imp_right fun _ => by omega)
          (hshort'.imp_right fun _ => by omega)
      · -- the padded program does nothing
        obtain ⟨i', hi', hnothing⟩ := h.exists_padding hn' hP
        have hplace := h.inRoom pc' n hn' hP
        rw [loop_step hi', step_nothing hnothing, pure_bind]
        exact .modify_right (fun _ => rfl) (ih (fuel + 1) pc (pc' + 1) f hrest
          (hshort.imp_right fun _ => by omega) (hshort'.imp_right fun _ => by omega))

end PadsProgram

/-! ### Bodies -/

/-- However calls are answered, running the second body keeps pace with running the first one, at
`room + 1` steps for each step. -/
def BodyKeepsPace (metadata : MetadataTables) (room : Nat) (body body' : Body) : Prop :=
  ∀ (short short' : Prop) (callee callee' : Callee), callee.KeepsPace short short' callee' →
    ∀ fuel fuel', (short ∨ fuel' ≤ fuel) → (short' ∨ (fuel + 1) * (room + 1) ≤ fuel') →
      ∀ method args, KeepsPace WidensTo short short' (· = ·)
        (runBody metadata fuel callee method body args)
        (runBody metadata fuel' callee' method body' args)

section

variable {metadata : MetadataTables} {body body' : Body}

theorem BodyKeepsPace.mono {room room' : Nat} (hle : room ≤ room')
    (h : BodyKeepsPace metadata room body body') : BodyKeepsPace metadata room' body body' := by
  intro short short' callee callee' hcallee fuel fuel' hshort hshort'
  have hroom : (fuel + 1) * (room + 1) ≤ (fuel + 1) * (room' + 1) :=
    Nat.mul_le_mul_left _ (Nat.succ_le_succ hle)
  exact h short short' callee callee' hcallee fuel fuel' hshort
    (hshort'.imp_right (Nat.le_trans hroom))

/-- **A body that reads as a padded stream keeps pace.** -/
theorem bodyKeepsPace_of_padded (hreads : body.ReadsInForms metadata stream)
    (hreads' : body'.ReadsAs metadata padded) (hnodup : (padded.flatMap (·.labels)).Nodup)
    (hpadded : Padded P stream padded) (hpad : ∀ n, P n → Operation.ofOpcode? n.opcode = some .nothing)
    (hroom : ∀ place n, padded[place]? = some n → P n → place < room)
    (hlocals : body'.locals = body.locals) : BodyKeepsPace metadata room body body' := by
  intro short short' callee callee' hcallee fuel fuel' hshort hshort' method args t t' ht
  obtain ⟨code, labels, hread, hruns, hforms⟩ := hreads t.supply
  obtain ⟨code', labels', hread', hruns'⟩ := hreads' t'.supply
  have hframe : body'.frame method args = body.frame method args := by
    rw [Body.frame, Body.frame, hlocals]
  rw [runBody_eq, runBody_eq, run_bind, run_bind, run_readCode, run_readCode, hread, hread', hframe]
  rw [Nat.succ_mul] at hshort'
  have hpads : PadsProgram P room stream padded _ _ :=
    ⟨hpadded, hruns, hforms, hruns', hnodup, hpad, hroom⟩
  exact hpads.keepsPace_loop hcallee fuel fuel' 0 0 _ hpadded hshort
    (hshort'.imp_right fun _ => by omega) _ _ ht

/-- A body keeps pace with itself, whether or not it can be read. -/
theorem bodyKeepsPace_refl (room : Nat) (body : Body) : BodyKeepsPace metadata room body body := by
  by_cases hread : ∃ supply code labels, body.decode metadata supply = (.ok code, labels)
  · obtain ⟨supply, code, labels, hread⟩ := hread
    obtain ⟨pass, stream, hpass, hlower⟩ := exists_lowersTo_of_decode hread
    obtain ⟨hnodup, hforms⟩ := readsInForms_of_decode hread hpass hlower
    exact bodyKeepsPace_of_padded hforms (readsAs_of_decode hread hpass hlower).2 hnodup
      (P := fun _ => False) (Padded.refl stream) (fun _ h => h.elim) (fun _ _ _ h => h.elim) rfl
  · -- the body is refused twice for the same reason
    intro short short' callee callee' hcallee fuel fuel' hshort hshort' method args t t' ht
    rw [runBody_eq, runBody_eq, run_bind, run_bind, run_readCode, run_readCode]
    generalize hdecode : body.decode metadata t.supply = outcome
    obtain ⟨e | code, labels⟩ := outcome
    · obtain ⟨labels', hdecode'⟩ := decode_error hdecode t'.supply
      rw [hdecode']
      exact .failed (ExecError.widensTo_refl _) ht
    · exact absurd ⟨_, _, _, hdecode⟩ hread

end

/-! ### Modules -/

/-- What stands behind a method in two modules: one native method, or bodies that keep pace. -/
inductive ImplementationKeepsPace (metadata : MetadataTables) (room : Nat) :
    Implementation → Implementation → Prop
  | native (n : NativeMethod) : ImplementationKeepsPace metadata room (.native n) (.native n)
  | managed {a b : ManagedMethod} : BodyKeepsPace metadata room a.active b.active →
      ImplementationKeepsPace metadata room (.managed a) (.managed b)

section

variable {m m' : Module} {fuel fuel' : Nat}

/-- Calls of a method keep pace if those that it makes do. -/
theorem keepsPace_enter (hmetadata : m'.metadata = m.metadata)
    (hmethods : ∀ method, Option.Rel (ImplementationKeepsPace m.metadata room)
      (m.implementation? method) (m'.implementation? method))
    (hshort : short ∨ fuel' ≤ fuel) (hshort' : short' ∨ (fuel + 1) * (room + 1) ≤ fuel')
    {nested? nested?' : Option Callee}
    (hnested : Option.Rel (Callee.KeepsPace short short') nested? nested?') (method : MethodRef)
    (args : List Value) :
    KeepsPace WidensTo short short' (· = ·) (enter m fuel nested? method args)
      (enter m' fuel' nested?' method args) := by
  unfold enter
  split
  · exact keepsPace_fail (ExecError.widensTo_refl _)
  · have hmethod := hmethods method
    generalize m.implementation? method = found, m'.implementation? method = found' at hmethod
    cases hmethod with
    | none => exact keepsPace_fail (ExecError.widensTo_refl _)
    | some himplementation =>
      cases himplementation with
      | native native =>
        intro t t' ht
        -- a native method records its call before it answers
        have hcalls : t'.calls ++ [⟨native.name, args⟩] = t.calls ++ [⟨native.name, args⟩] := by
          rw [ht]
        simp only [runNative]
        cases hrun : native.run args with
        | ok v? => exact .ok rfl hcalls
        | error e => exact .failed (ExecError.widensTo_refl e) hcalls
      | managed hbody =>
        cases hnested with
        | none => exact keepsPace_fail (ExecError.widensTo_refl _)
        | some hcallee =>
          simp only [hmetadata]
          exact hbody short short' _ _ hcallee fuel fuel' hshort hshort' method args

/-- **Modules that differ in padded bodies answer calls alike**, by induction on the room for nested
frames. -/
theorem keepsPace_invokeWithin (hmetadata : m'.metadata = m.metadata)
    (hmethods : ∀ method, Option.Rel (ImplementationKeepsPace m.metadata room)
      (m.implementation? method) (m'.implementation? method))
    (hshort : short ∨ fuel' ≤ fuel) (hshort' : short' ∨ (fuel + 1) * (room + 1) ≤ fuel')
    (depth : Nat) :
    Callee.KeepsPace short short' (invokeWithin m fuel depth) (invokeWithin m' fuel' depth) where
  steady := steady_invokeWithin m fuel depth
  steady' := steady_invokeWithin m' fuel' depth
  answers := by
    induction depth with
    | zero => exact keepsPace_enter hmetadata hmethods hshort hshort' .none
    | succ depth ih =>
      refine keepsPace_enter hmetadata hmethods hshort hshort' (.some ?_)
      exact ⟨ih, steady_invokeWithin m fuel depth, steady_invokeWithin m' fuel' depth⟩

end

theorem lt_succ_mul (n room : Nat) : n < (n + 1) * (room + 1) :=
  Nat.lt_of_lt_of_le (Nat.lt_succ_self n) (Nat.le_mul_of_pos_right _ (Nat.succ_pos room))

/-- **Two modules that differ from a third in padded bodies** answer calls alike, each at a fixed
multiple of the steps that the other takes. -/
theorem keepsPace_invoke_through {m₀ m m' : Module} (hmetadata : m.metadata = m₀.metadata)
    (hmetadata' : m'.metadata = m₀.metadata)
    (hmethods : ∀ method, Option.Rel (ImplementationKeepsPace m₀.metadata room)
      (m₀.implementation? method) (m.implementation? method))
    (hmethods' : ∀ method, Option.Rel (ImplementationKeepsPace m₀.metadata room)
      (m₀.implementation? method) (m'.implementation? method))
    (fuel fuel' : Nat) (method : MethodRef) (args : List Value) :
    KeepsPace ExecError.SameForm (fuel < (fuel' + 1) * (room + 1)) (fuel' < (fuel + 1) * (room + 1))
      (· = ·) (m.invoke fuel method args) (m'.invoke fuel' method args) := by
  -- both are held against the third module, which is given `n` steps
  have hthrough (n : Nat) (hahead : ¬ (n < fuel ∧ n < fuel'))
      (hshort : fuel < (n + 1) * (room + 1) ∨ n < fuel' → fuel < (fuel' + 1) * (room + 1))
      (hshort' : fuel' < (n + 1) * (room + 1) ∨ n < fuel → fuel' < (fuel + 1) * (room + 1)) :
      KeepsPace ExecError.SameForm (fuel < (fuel' + 1) * (room + 1))
        (fuel' < (fuel + 1) * (room + 1)) (· = ·) (m.invoke fuel method args)
        (m'.invoke fuel' method args) := by
    have hfirst := keepsPace_invokeWithin hmetadata hmethods (Nat.lt_or_ge n fuel)
      (Nat.lt_or_ge fuel ((n + 1) * (room + 1))) maxCallDepth
    have hsecond := keepsPace_invokeWithin hmetadata' hmethods' (Nat.lt_or_ge n fuel')
      (Nat.lt_or_ge fuel' ((n + 1) * (room + 1))) maxCallDepth
    exact (hfirst.answers method args).through (hsecond.answers method args)
      (fun _ _ _ h h' => h.sameForm h') (fun _ _ _ h h' => h.symm.trans h') hahead hshort hshort'
  have hlt := lt_succ_mul fuel room
  have hlt' := lt_succ_mul fuel' room
  by_cases hmuch : (fuel' + 1) * (room + 1) ≤ fuel
  · -- the first module has steps enough for all that the third does in `fuel'`
    exact hthrough fuel' (by omega) (by omega) (by omega)
  by_cases hmuch' : (fuel + 1) * (room + 1) ≤ fuel'
  · exact hthrough fuel (by omega) (by omega) (by omega)
  · exact hthrough (max fuel fuel') (by omega) (by omega) (by omega)

end Machine

end MethodWeave
