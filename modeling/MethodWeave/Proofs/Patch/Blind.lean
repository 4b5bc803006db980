import MethodWeave.Proofs.Patch.Uniform
/-!
Transpilers that do not look at the numbers of labels, nor at the log and the notes.

Uniform transpilers are asked for their successes only.  These here fail alike as well, so two runs
of a stage, one of them with its label supply `k` further on, end alike whatever happens in them.
Labels that a transpiler has kept from elsewhere keep their numbers, which a shift by `k` would
tell; between runs that begin at one number, `k` is zero, and every function of the instructions
will do (`Transpiler.blind_zero_ofFunction`).

Main result: `RewriteStage.run_matches`.
-/

namespace MethodWeave

/-- The second context has its label supply `k` further on; the log and the notes may be any. -/
structure TranspileContext.Moved (k : Nat) (c c' : TranspileContext) : Prop where
  shifted : c.Shifted k c'
  mode : c'.mode = c.mode

namespace Transpiler

/-- What the transpiler makes of instructions, it makes of shifted ones with the labels shifted; and
it fails alike. -/
def Blind (k : Nat) (t : Transpiler) : Prop :=
  ∀ code : List Instruction, RunsMatch (TranspileContext.Moved k)
    (fun out out' => out' = out.map (Instruction.shifted k)) (t.run code)
    (t.run (code.map (Instruction.shifted k)))

/-- A function that does not look at the numbers of labels is blind. -/
theorem blind_ofFunction {k : Nat} (name : String)
    {f : List Instruction → Except TranspileError (List Instruction)}
    (h : ∀ code, f (code.map (Instruction.shifted k)) =
      (f code).map (List.map (Instruction.shifted k))) : (ofFunction name f).Blind k := by
  intro code
  refine .of_except ?_
  rw [h]
  cases f code with
  | ok out => exact .ok rfl
  | error e => exact .error e

end Transpiler

/-- A shift by zero changes nothing. -/
@[simp] theorem Instruction.shifted_zero (i : Instruction) : i.shifted 0 = i := by
  have hlabel : Label.shifted 0 = id := rfl
  obtain ⟨opcode, operand, labels, markers, offset?⟩ := i
  have hoperand : operand.shifted 0 = operand := by
    cases operand with
    | branchTarget target? => simp only [Operand.shifted, hlabel, Option.map_id_fun, id]
    | switch targets => simp only [Operand.shifted, hlabel, List.map_id_fun, id]
    | _ => rfl
  simp only [Instruction.shifted, hoperand, hlabel, List.map_id_fun, id]

/-- Between runs that begin at one label number, functions of the instructions are blind. -/
theorem Transpiler.blind_zero_ofFunction (name : String)
    (f : List Instruction → Except TranspileError (List Instruction)) :
    (ofFunction name f).Blind 0 := by
  have hzero : Instruction.shifted 0 = id := funext Instruction.shifted_zero
  refine blind_ofFunction name fun code => ?_
  simp only [hzero, List.map_id_fun, id]
  cases f code <;> rfl

section

variable {k : Nat} {c c' : TranspileContext}

theorem TranspileContext.Moved.write (h : c.Moved k c') (level level' : Level)
    (line line' : Unit → String) : (c.write level line).Moved k (c'.write level' line') :=
  ⟨h.shifted.write level level' line line', h.mode⟩

theorem TranspileContext.mode_record (c : TranspileContext) (flag : PrintMode) (which : String)
    (code : List Instruction) : (c.record flag which code).mode = c.mode := by
  unfold record
  split <;> rfl

theorem TranspileContext.Moved.record (h : c.Moved k c') (flag : PrintMode) (which : String)
    (code code' : List Instruction) :
    (c.record flag which code).Moved k (c'.record flag which code') := by
  refine ⟨h.shifted.record flag which code code', ?_⟩
  rw [mode_record, mode_record, h.mode]

namespace Transpiler

theorem Blind.apply {t : Transpiler} (h : t.Blind k) (code : List Instruction) :
    RunsMatch (TranspileContext.Moved k) (fun out out' => out' = out.map (Instruction.shifted k))
      (t.apply code) (t.apply (code.map (Instruction.shifted k))) :=
  .bind (.of_modify fun _ _ hc => hc.write _ _ _ _) fun _ _ _ => (h code).adapt _

/-- A chain of blind transpilers is blind. -/
theorem runsMatch_chain {ts : List Transpiler} (h : ∀ t ∈ ts, t.Blind k)
    {code code' : List Instruction} (hcode : code' = code.map (Instruction.shifted k)) :
    RunsMatch (TranspileContext.Moved k) (fun out out' => out' = out.map (Instruction.shifted k))
      (chain ts code) (chain ts code') := by
  induction ts generalizing code code' with
  | nil => exact .of_pure hcode
  | cons t ts ih =>
    obtain ⟨ht, hts⟩ := List.forall_mem_cons.1 h
    subst hcode
    rw [chain, chain, List.foldlM_cons, List.foldlM_cons]
    exact .bind (ht.apply code) fun _ _ hout => ih hts hout

end Transpiler

namespace RewriteStage

variable {stage : RewriteStage}

theorem runsMatch_rewrite (hblind : ∀ t ∈ stage.transpilers, t.Blind k)
    (stream : List NativeInstruction) :
    RunsMatch (TranspileContext.Moved k) (· = ·) (stage.rewrite stream) (stage.rewrite stream) := by
  unfold rewrite
  refine .bind .of_get fun c c' hc => ?_
  -- the same native stream is lifted to shifted instructions
  obtain ⟨hlift, hsupply⟩ := Instruction.ofNative_matches stream hc.shifted.supply
  generalize Instruction.ofNative stream c.supply = lifted,
    Instruction.ofNative stream c'.supply = lifted' at hlift hsupply
  obtain ⟨result, supply⟩ := lifted
  obtain ⟨result', supply'⟩ := lifted'
  refine .bind (.of_modify fun _ _ hs =>
    ⟨⟨hs.shifted.method, hsupply, hs.shifted.lowering⟩, hs.mode⟩) fun _ _ _ => ?_
  cases hlift with
  | error e => exact .of_throw _
  | @ok code _ hcode =>
    subst hcode
    refine .bind (.of_modify fun _ _ hs => hs.record _ _ _ _) fun _ _ _ => ?_
    -- the chain makes shifted instructions of them, which are lowered to one stream again
    refine .bind (Transpiler.runsMatch_chain hblind rfl) fun code code' hcode => ?_
    subst hcode
    refine .bind (.of_modify fun _ _ hs => hs.record _ _ _ _) fun _ _ _ => ?_
    refine .bind .of_get fun s s' hs => ?_
    obtain ⟨hlower, hpass⟩ := Instruction.runsMatch_lowerAll code _ _ hs.shifted.lowering
    generalize (Instruction.lowerAll code).run s.lowering = lowered,
      (Instruction.lowerAll (code.map (Instruction.shifted k))).run s'.lowering = lowered'
      at hlower hpass
    obtain ⟨result, pass⟩ := lowered
    obtain ⟨result', pass'⟩ := lowered'
    refine .bind (.of_modify fun _ _ hs =>
      ⟨⟨hs.shifted.method, hs.shifted.supply, hpass⟩, hs.mode⟩) fun _ _ _ => ?_
    cases hlower with
    | error e => exact .of_throw _
    | ok hstream => exact .of_pure hstream

/-- **Blind stages end alike**, from whatever label numbers they begin. -/
theorem run_matches (hblind : ∀ t ∈ stage.transpilers, t.Blind k) (method : MethodRef)
    (stream : List NativeInstruction) (g : Generator) {journal journal' : Journal}
    (hsupply : journal'.supply.next = journal.supply.next + k) :
    (stage.run method stream g journal').1 = (stage.run method stream g journal).1 ∧
      (stage.run method stream g journal').2.supply.next =
        (stage.run method stream g journal).2.supply.next + k := by
  unfold run
  split
  · -- both runs begin without targets, on the same generator
    have hbegin : TranspileContext.Moved k
        { method := method, mode := stage.mode, supply := journal.supply
          lowering := { generator := g, level := stage.mode.emitLevel, log := journal.log }
          notes := journal.notes }
        { method := method, mode := stage.mode, supply := journal'.supply
          lowering := { generator := g, level := stage.mode.emitLevel, log := journal'.log }
          notes := journal'.notes } := ⟨⟨rfl, hsupply, rfl, fun _ => rfl⟩, rfl⟩
    obtain ⟨hstream, hc⟩ := runsMatch_rewrite hblind stream _ _ hbegin
    refine ⟨?_, hc.shifted.supply⟩
    exact congrArg₂ (fun result g => Except.map (fun out => (out, g)) result) hstream.eq.symm
      hc.shifted.lowering.generator
  · exact ⟨rfl, hsupply⟩

end RewriteStage

end

end MethodWeave
