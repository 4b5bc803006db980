import MethodWeave.Proofs.Instruction.Labelling
import MethodWeave.Proofs.Patch.Staging
/-!
Transpilers that use labels of their own only.

Such a transpiler takes labels from the instructions that it is given, or makes new ones, and has
native labels for them from the pass.  Main results: `chain_usesOwnLabels`, a chain of such
transpilers is one, and `RewriteStage.outcome_apart`, so the labels of what a stage lowers are told
apart by the pass that it lowers them in.
-/

namespace MethodWeave

open Instruction (mentioned)

namespace Transpiler

/-- The labels in what comes out are labels that the transpiler found and labels that are new, which
are free.  It uses the pass to ask for labels and locals; to bind a label to a native label that was
not made for it would be to use one that it neither found nor made. -/
def UsesOwnLabels (t : Transpiler) : Prop :=
  ∀ {code code' : List Instruction} {c c' : TranspileContext},
    (t.run code).run c = (.ok code', c') →
      (∀ l ∈ mentioned code', l ∈ mentioned code ∨ l.fixed? = none) ∧
        c.lowering.Draws c'.lowering

/-- A chain of such transpilers uses labels of its own only. -/
theorem chain_usesOwnLabels {ts : List Transpiler} (h : ∀ t ∈ ts, t.UsesOwnLabels)
    {code code' : List Instruction} {c c' : TranspileContext}
    (hrun : (chain ts code).run c = (.ok code', c')) :
    (∀ l ∈ mentioned code', l ∈ mentioned code ∨ l.fixed? = none) ∧
      c.lowering.Draws c'.lowering := by
  induction ts generalizing code c with
  | nil =>
    obtain ⟨rfl, rfl⟩ := chain_nil_eq_ok_iff.1 hrun
    exact ⟨fun l hl => Or.inl hl, .refl⟩
  | cons t ts ih =>
    obtain ⟨ht, hts⟩ := List.forall_mem_cons.1 h
    obtain ⟨code₁, c₁, happly, hchain⟩ := chain_cons_eq_ok_iff.1 hrun
    obtain ⟨hfirst, hdraws₁⟩ := ht (apply_eq_ok_iff.1 happly)
    obtain ⟨hrest, hdraws₂⟩ := ih hts hchain
    refine ⟨fun l hl => ?_, ?_⟩
    · rcases hrest l hl with hl | hfree
      · exact hfirst l hl
      · exact Or.inr hfree
    · -- the transpiler is run in the context with its name in the log
      exact (Relation.ReflTransGen.single (.write _ _ _)).trans (hdraws₁.trans hdraws₂)

end Transpiler

/-- A listing in the log changes nothing about labels. -/
theorem TranspileContext.soundSince_record {c : TranspileContext} {n : Nat}
    (h : c.lowering.SoundSince n) (flag : PrintMode) (which : String) (code : List Instruction) :
    (c.record flag which code).lowering.SoundSince n := by
  unfold record
  split
  · exact h.request (.write _ _ _)
  · exact h

namespace RewriteStage

/-- What the chain of a stage makes of a stream, and the pass that it is lowered in; `none` if the
stage does not get so far. -/
def outcome? (stage : RewriteStage) (method : MethodRef) (stream : List NativeInstruction)
    (g : Generator) (journal : Journal) : Option (List Instruction × Lowering) :=
  if method == stage.method then
    match Instruction.ofNative stream journal.supply with
    | (.error _, _) => none
    | (.ok lifted, supply) =>
      match (Transpiler.chain stage.transpilers lifted).run
        (({ stage.context method g journal with supply := supply } : TranspileContext).record
          .before "Original" lifted) with
      | (.error _, _) => none
      | (.ok code, c) => some (code, (c.record .after "Patched" code).lowering)
  else none

section

variable {stage : RewriteStage} {method : MethodRef} {stream : List NativeInstruction}
  {g : Generator} {journal : Journal} {code : List Instruction} {pass : Lowering}

theorem outcome?_eq_some_iff :
    stage.outcome? method stream g journal = some (code, pass) ↔
      (method == stage.method) = true ∧ ∃ lifted supply c,
        Instruction.ofNative stream journal.supply = (.ok lifted, supply) ∧
        (Transpiler.chain stage.transpilers lifted).run
          (({ stage.context method g journal with supply := supply } : TranspileContext).record
            .before "Original" lifted) = (.ok code, c) ∧
        pass = (c.record .after "Patched" code).lowering := by
  unfold outcome?
  constructor
  · intro h
    split at h
    · next hmethod =>
      split at h
      · cases h
      · next lifted supply hlift =>
        split at h
        · cases h
        · next c hchain =>
          cases h
          exact ⟨hmethod, lifted, supply, c, hlift, hchain, rfl⟩
    · cases h
  · rintro ⟨hmethod, lifted, supply, c, hlift, hchain, rfl⟩
    rw [if_pos hmethod, hlift]
    simp only [hchain]

/-- A stage that succeeds has lowered what its chain made of the stream. -/
theorem outcome_of_run {out : List NativeInstruction} {g' : Generator} {journal' : Journal}
    (h : stage.run method stream g journal = (.ok (out, g'), journal')) :
    ∃ code pass pass', stage.outcome? method stream g journal = some (code, pass) ∧
      (Instruction.lowerAll code).run pass = (.ok out, pass') ∧ g' = pass'.generator := by
  obtain ⟨hmethod, c, hrewrite, rfl, -⟩ := run_eq_ok_iff.1 h
  obtain ⟨lifted, supply, code, c₁, pass', hlift, hchain, hlower, rfl⟩ :=
    rewrite_eq_ok_iff.1 hrewrite
  exact ⟨code, _, pass',
    outcome?_eq_some_iff.2 ⟨hmethod, lifted, supply, c₁, hlift, hchain, rfl⟩, hlower, rfl⟩

/-- **A stage mixes no labels up.**  Its fixed labels stand for labels of the stream, each for its
own, and the native labels that its free labels have got are newer than those. -/
theorem outcome_apart (hliftable : ∀ n ∈ stream, Instruction.Liftable n)
    (hlt : ∀ t ∈ labelsOf stream, t.number < g.nextLabel)
    (hts : ∀ t ∈ stage.transpilers, t.UsesOwnLabels)
    (h : stage.outcome? method stream g journal = some (code, pass)) :
    FixedBelow g.nextLabel (mentioned code) ∧ pass.SoundSince g.nextLabel := by
  obtain ⟨-, lifted, supply, c, hlift, hchain, rfl⟩ := outcome?_eq_some_iff.1 h
  obtain ⟨s, hs, hlifts⟩ := Instruction.liftsTo_of_ofNative hliftable hlift
  obtain ⟨hlabels, hdraws⟩ := Transpiler.chain_usesOwnLabels hts hchain
  refine ⟨(Instruction.fixedBelow_of_liftsTo hs hlifts hlt).of_mem_or hlabels, ?_⟩
  -- the pass begins without free labels, and the chain only asks it for some
  have hbegin : ({ stage.context method g journal with supply := supply } :
      TranspileContext).lowering.SoundSince g.nextLabel := Lowering.soundSince_begin g _ _
  have hlisted := TranspileContext.soundSince_record hbegin .before "Original" lifted
  exact TranspileContext.soundSince_record (hlisted.draws hdraws) _ _ _

end

end RewriteStage

end MethodWeave
