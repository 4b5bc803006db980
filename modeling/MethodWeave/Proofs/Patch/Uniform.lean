import MethodWeave.Patch.Transpiler
import MethodWeave.Proofs.Instruction.Shifting
/-!
Transpilers to which it makes no difference how labels are numbered.

Such a transpiler makes shifted instructions of shifted instructions, whatever else is in the log,
the notes and the print mode.  Main result: `run_alike`, stages with the same transpilers, all of
them of this kind, make one and the same native stream of a native stream, from whatever label
numbers they begin.
-/

namespace MethodWeave

/-- The second context has its label supply `k` further on.  The method and the generator are the
same; log, notes and print mode may be any. -/
structure TranspileContext.Shifted (k : Nat) (c c' : TranspileContext) : Prop where
  method : c'.method = c.method
  supply : c'.supply.next = c.supply.next + k
  lowering : c.lowering.Shifted k c'.lowering

namespace Transpiler

/-- What the transpiler makes of any instructions, if it does not fail, it makes of shifted ones
with the labels shifted. -/
def Uniform (t : Transpiler) : Prop :=
  ∀ (k : Nat) (code : List Instruction), RunsAlike (TranspileContext.Shifted k)
    (fun out out' => out' = out.map (Instruction.shifted k)) (t.run code)
    (t.run (code.map (Instruction.shifted k)))

/-- A transpiler that does nothing but apply a function to the instructions. -/
def ofFunction (name : String) (f : List Instruction → Except TranspileError (List Instruction)) :
    Transpiler where
  name := name
  run code := liftM (f code)

/-- A function that does not look at the numbers of labels is uniform. -/
theorem uniform_ofFunction (name : String)
    {f : List Instruction → Except TranspileError (List Instruction)}
    (h : ∀ k code out, f code = .ok out →
      f (code.map (Instruction.shifted k)) = .ok (out.map (Instruction.shifted k))) :
    (ofFunction name f).Uniform :=
  fun k code => .of_except fun out hout => ⟨_, h k code out hout, rfl⟩

end Transpiler

section

variable {k : Nat}

theorem TranspileContext.Shifted.write {c c' : TranspileContext} (h : c.Shifted k c')
    (level level' : Level) (line line' : Unit → String) :
    (c.write level line).Shifted k (c'.write level' line') :=
  ⟨h.method, h.supply, h.lowering.generator, h.lowering.targets⟩

theorem TranspileContext.Shifted.record {c c' : TranspileContext} (h : c.Shifted k c')
    (flag : PrintMode) (which : String) (code code' : List Instruction) :
    (c.record flag which code).Shifted k (c'.record flag which code') := by
  have hself (c : TranspileContext) (code : List Instruction) :
      (c.record flag which code).method = c.method ∧
        (c.record flag which code).supply = c.supply ∧
        (c.record flag which code).lowering.generator = c.lowering.generator ∧
        (c.record flag which code).lowering.targets = c.lowering.targets := by
    unfold TranspileContext.record
    split <;> exact ⟨rfl, rfl, rfl, rfl⟩
  obtain ⟨hmethod, hsupply, hgenerator, htargets⟩ := hself c code
  obtain ⟨hmethod', hsupply', hgenerator', htargets'⟩ := hself c' code'
  refine ⟨?_, ?_, ?_, ?_⟩
  · rw [hmethod, hmethod', h.method]
  · rw [hsupply, hsupply', h.supply]
  · rw [hgenerator, hgenerator', h.lowering.generator]
  · rw [htargets, htargets']
    exact h.lowering.targets

namespace Transpiler

theorem Uniform.apply {t : Transpiler} (h : t.Uniform) (code : List Instruction) :
    RunsAlike (TranspileContext.Shifted k) (fun out out' => out' = out.map (Instruction.shifted k))
      (t.apply code) (t.apply (code.map (Instruction.shifted k))) :=
  .bind (.of_modify fun _ _ hc => hc.write _ _ _ _) fun _ _ _ => (h k code).adapt _ _

/-- A chain of uniform transpilers is uniform. -/
theorem runsAlike_chain {ts : List Transpiler} (h : ∀ t ∈ ts, t.Uniform)
    {code code' : List Instruction} (hcode : code' = code.map (Instruction.shifted k)) :
    RunsAlike (TranspileContext.Shifted k) (fun out out' => out' = out.map (Instruction.shifted k))
      (chain ts code) (chain ts code') := by
  induction ts generalizing code code' with
  | nil => exact .of_pure hcode
  | cons t ts ih =>
    obtain ⟨ht, hts⟩ := List.forall_mem_cons.1 h
    subst hcode
    rw [chain, chain, List.foldlM_cons, List.foldlM_cons]
    exact .bind (ht.apply code) fun _ _ hout => ih hts hout

end Transpiler

variable {stage stage' : RewriteStage}

theorem RewriteStage.runsAlike_rewrite (htranspilers : stage'.transpilers = stage.transpilers)
    (huniform : ∀ t ∈ stage.transpilers, t.Uniform) (stream : List NativeInstruction) :
    RunsAlike (TranspileContext.Shifted k) (· = ·) (stage.rewrite stream)
      (stage'.rewrite stream) := by
  unfold rewrite
  refine .bind .of_get fun c c' hc => ?_
  -- the same native stream is lifted to shifted instructions
  generalize hlift : Instruction.ofNative stream c.supply = lifted
  obtain ⟨e | code, supply⟩ := lifted
  · exact .of_bind_throw
  · obtain ⟨supply', hlift', hsupply⟩ := Instruction.ofNative_shifted hlift hc.supply
    simp only [hlift', htranspilers]
    refine .bind (.of_modify fun _ _ hs => ⟨hs.method, hsupply, hs.lowering⟩) fun _ _ _ => ?_
    refine .bind (.of_modify fun _ _ hs => hs.record _ _ _ _) fun _ _ _ => ?_
    -- the chain makes shifted instructions of them, which are lowered to one stream again
    refine .bind (Transpiler.runsAlike_chain huniform rfl) fun code code' hcode => ?_
    subst hcode
    refine .bind (.of_modify fun _ _ hs => hs.record _ _ _ _) fun _ _ _ => ?_
    refine .bind .of_get fun s s' hs => ?_
    generalize hlower : (Instruction.lowerAll code).run s.lowering = lowered
    obtain ⟨e | out, pass⟩ := lowered
    · exact .of_bind_throw
    · obtain ⟨out', pass', hlower', rfl, hpass⟩ :=
        Instruction.runsAlike_lowerAll code _ _ _ _ hs.lowering hlower
      simp only [hlower']
      refine .bind (.of_modify fun _ _ hs => ⟨hs.method, hs.supply, hpass⟩) fun _ _ _ => ?_
      exact .of_pure rfl

/-- **Uniform stages make one stream.**  If a stage succeeds, then a stage with the same
transpilers, all of them uniform, succeeds from a label supply that is further on, with the same
stream and the same generator. -/
theorem RewriteStage.run_alike (hmethod : stage'.method = stage.method)
    (htranspilers : stage'.transpilers = stage.transpilers)
    (huniform : ∀ t ∈ stage.transpilers, t.Uniform) {method : MethodRef}
    {stream out : List NativeInstruction} {g g' : Generator} {journal journal₁ journal' : Journal}
    (hsupply : journal'.supply.next = journal.supply.next + k)
    (h : stage.run method stream g journal = (.ok (out, g'), journal₁)) :
    ∃ journal₁', stage'.run method stream g journal' = (.ok (out, g'), journal₁') := by
  unfold run at h ⊢
  rw [hmethod]
  split at h
  · next hfor =>
    rw [if_pos hfor]
    generalize hrewrite : (stage.rewrite stream).run _ = outcome at h
    obtain ⟨result, c⟩ := outcome
    rw [Prod.mk.injEq, map_eq_ok_iff] at h
    obtain ⟨⟨out', hout, heq⟩, -⟩ := h
    cases heq
    rw [show result = .ok out from hout] at hrewrite
    -- both runs begin without targets, on the same generator
    have hbegin : TranspileContext.Shifted k
        { method := method, mode := stage.mode, supply := journal.supply
          lowering := { generator := g, level := stage.mode.emitLevel, log := journal.log }
          notes := journal.notes }
        { method := method, mode := stage'.mode, supply := journal'.supply
          lowering := { generator := g, level := stage'.mode.emitLevel, log := journal'.log }
          notes := journal'.notes } := ⟨rfl, hsupply, rfl, fun _ => rfl⟩
    obtain ⟨_, c', hrewrite', rfl, hc⟩ :=
      runsAlike_rewrite htranspilers huniform stream _ _ _ _ hbegin hrewrite
    simp only [hrewrite', hc.lowering.generator]
    exact ⟨_, rfl⟩
  · cases h

end

end MethodWeave
