import MethodWeave.Proofs.Instruction.Lifting
import MethodWeave.Proofs.Native.Layout
import MethodWeave.Proofs.Patch.Staging
/-!
Stages that change nothing.

Lifting gives fixed labels, and these stand for their native labels in every pass.  So a stage whose
transpilers give back what they are given lowers just what it lifted, whatever they do with the pass
in between.  Main result: `lower_lift`, for a stream by itself and for a stage that is run on it.
-/

namespace MethodWeave

namespace Transpiler

/-- The transpiler gives the instructions back, whatever else it does. -/
def ReturnsInput (t : Transpiler) : Prop :=
  ∀ code c, ∃ c', (t.run code).run c = (.ok code, c')

/-- A chain of such transpilers gives the instructions back. -/
theorem chain_of_returnsInput {ts : List Transpiler} (h : ∀ t ∈ ts, t.ReturnsInput)
    (code : List Instruction) (c : TranspileContext) :
    ∃ c', (chain ts code).run c = (.ok code, c') := by
  induction ts generalizing c with
  | nil => exact ⟨c, rfl⟩
  | cons t ts ih =>
    obtain ⟨ht, hts⟩ := List.forall_mem_cons.1 h
    obtain ⟨c₁, hfirst⟩ := ht code _
    obtain ⟨c₂, hrest⟩ := ih hts c₁
    exact ⟨c₂, chain_cons_eq_ok_iff.2 ⟨code, c₁, apply_eq_ok_iff.2 hfirst, hrest⟩⟩

end Transpiler

section

variable {stage : RewriteStage} {stream : List NativeInstruction}

theorem RewriteStage.rewrite_of_returnsInput (hliftable : ∀ n ∈ stream, Instruction.Liftable n)
    (hlabels : ∀ n ∈ stream, n.labels.Pairwise (·.number < ·.number))
    (hts : ∀ t ∈ stage.transpilers, t.ReturnsInput) (c : TranspileContext) :
    ∃ c', (stage.rewrite stream).run c = (.ok stream, c') := by
  obtain ⟨code, supply, hlift⟩ := Instruction.exists_ofNative hliftable c.supply
  obtain ⟨c₁, hchain⟩ := Transpiler.chain_of_returnsInput hts code
    (({ c with supply := supply } : TranspileContext).record .before "Original" code)
  have hlower : (Instruction.lowerAll code).run (c₁.record .after "Patched" code).lowering =
      (.ok stream, (c₁.record .after "Patched" code).lowering) := by
    rw [Instruction.lowerAll_of_ofNative hliftable hlabels hlift]
    rfl
  exact ⟨_, rewrite_eq_ok_iff.2 ⟨code, supply, code, c₁, _, hlift, hchain, hlower, rfl⟩⟩

/-- **Lifting and then lowering changes nothing**, if every operand suits its opcode and the labels
of every instruction stand in increasing order: in whatever state the pass is, it gives the stream
back and stays in that state, so it asks for no label.  Hence a stage whose transpilers give back
what they are given gives the stream back. -/
theorem lower_lift (hcheck : checkFrom 0 stream = .ok ())
    (hlabels : ∀ n ∈ stream, n.labels.Pairwise (·.number < ·.number)) :
    (∀ supply, ∃ code supply', Instruction.ofNative stream supply = (.ok code, supply') ∧
      ∀ pass, (Instruction.lowerAll code).run pass = (.ok stream, pass)) ∧
    ∀ (stage : RewriteStage) (method : MethodRef) (g : Generator) (journal : Journal),
      (method == stage.method) = true → (∀ t ∈ stage.transpilers, t.ReturnsInput) →
      ∃ g' journal', stage.run method stream g journal = (.ok (stream, g'), journal') := by
  have hliftable : ∀ n ∈ stream, Instruction.Liftable n := checkFrom_iff.1 hcheck
  refine ⟨fun supply => ?_, fun stage method g journal hmethod hts => ?_⟩
  · obtain ⟨code, supply', hlift⟩ := Instruction.exists_ofNative hliftable supply
    refine ⟨code, supply', hlift, fun pass => ?_⟩
    rw [Instruction.lowerAll_of_ofNative hliftable hlabels hlift]
    rfl
  · obtain ⟨c, hrewrite⟩ := stage.rewrite_of_returnsInput hliftable hlabels hts
      (stage.context method g journal)
    exact ⟨_, _, RewriteStage.run_eq_ok_iff.2 ⟨hmethod, c, hrewrite, rfl, rfl⟩⟩

end

/-- A jump table that names labels twice, an instruction with two of them, and a handler. -/
def tangledStream : List NativeInstruction :=
  [{ opcode := ⟨0x45⟩, operand := .labels [⟨4⟩, ⟨1⟩, ⟨4⟩], labels := [⟨0⟩] },
    { opcode := ⟨0x72⟩, operand := .string "s", labels := [⟨1⟩, ⟨4⟩], markers := [.beginTry] },
    { opcode := ⟨0xde⟩, operand := .label ⟨0⟩, markers := [.beginCatch none] },
    { opcode := ⟨0x2a⟩, markers := [.endTry] }]

/-- A transpiler that asks for a label and gives back what it was given. -/
def idleTranspiler : Transpiler where
  name := "idle"
  run code := do
    modify fun c => { c with lowering := c.lowering.defineLabel.2 }
    return code

theorem returnsInput_idleTranspiler : idleTranspiler.ReturnsInput := fun _ _ => ⟨_, rfl⟩

/-- A stage that runs it. -/
def idleStage (method : MethodRef) : RewriteStage := ⟨method, [idleTranspiler, idleTranspiler], {}⟩

theorem lower_lift_tangledStream :
    checkFrom 0 tangledStream = .ok () ∧
      (∀ n ∈ tangledStream, n.labels.Pairwise (·.number < ·.number)) ∧
      (∃ code supply, Instruction.ofNative tangledStream ⟨7⟩ = (.ok code, supply) ∧
        ∀ pass, (Instruction.lowerAll code).run pass = (.ok tangledStream, pass)) ∧
      ∃ g journal, (idleStage default).run default tangledStream ⟨5, []⟩ {} =
        (.ok (tangledStream, g), journal) := by
  have hcheck : checkFrom 0 tangledStream = .ok () := rfl
  have hlabels : ∀ n ∈ tangledStream, n.labels.Pairwise (·.number < ·.number) := by decide
  obtain ⟨hlower, hstage⟩ := lower_lift hcheck hlabels
  refine ⟨hcheck, hlabels, hlower ⟨7⟩, hstage (idleStage default) default ⟨5, []⟩ {} rfl ?_⟩
  simp only [idleStage, List.forall_mem_cons]
  exact ⟨returnsInput_idleTranspiler, returnsInput_idleTranspiler, List.forall_mem_nil _⟩

end MethodWeave
