import MethodWeave.Patch.Transpiler
import MethodWeave.Proofs.Outcome
/-!
What the success of a rewrite stage says of its parts.

A stage lifts a stream, runs its chain and lowers what comes out.  Main results: `rewrite_eq_ok_iff`
and `run_eq_ok_iff`, a stage succeeds just when these do one behind the other.
-/

namespace MethodWeave

namespace TranspileContext

@[simp] theorem generator_write (c : TranspileContext) (level : Level) (line : Unit → String) :
    (c.write level line).lowering.generator = c.lowering.generator := rfl

@[simp] theorem targets_write (c : TranspileContext) (level : Level) (line : Unit → String) :
    (c.write level line).lowering.targets = c.lowering.targets := rfl

@[simp] theorem generator_record (c : TranspileContext) (flag : PrintMode) (which : String)
    (code : List Instruction) :
    (c.record flag which code).lowering.generator = c.lowering.generator := by
  unfold record
  split <;> rfl

@[simp] theorem targets_record (c : TranspileContext) (flag : PrintMode) (which : String)
    (code : List Instruction) :
    (c.record flag which code).lowering.targets = c.lowering.targets := by
  unfold record
  split <;> rfl

end TranspileContext

namespace Transpiler

variable {t : Transpiler} {ts : List Transpiler} {code code' : List Instruction}
  {c c' : TranspileContext}

/-- A transpiler is run in the context with its name in the log. -/
theorem apply_eq_ok_iff :
    (t.apply code).run c = (.ok code', c') ↔
      (t.run code).run (c.write .trace fun _ =>
        "Running transpiler " ++ t.name ++ " on " ++ c.method.text) = (.ok code', c') := by
  have hrun : (t.apply code).run c = (((t.run code).run (c.write .trace fun _ =>
        "Running transpiler " ++ t.name ++ " on " ++ c.method.text)).1.mapError (.transpiler t.name),
      ((t.run code).run (c.write .trace fun _ =>
        "Running transpiler " ++ t.name ++ " on " ++ c.method.text)).2) := rfl
  rw [hrun, Prod.mk.injEq, mapError_eq_ok_iff, ← Prod.mk.injEq]
  exact Iff.rfl

theorem chain_nil_eq_ok_iff :
    (chain [] code).run c = (.ok code', c') ↔ code = code' ∧ c = c' :=
  run_pure_eq_ok_iff

theorem chain_cons_eq_ok_iff :
    (chain (t :: ts) code).run c = (.ok code', c') ↔
      ∃ code₁ c₁, (t.apply code).run c = (.ok code₁, c₁) ∧
        (chain ts code₁).run c₁ = (.ok code', c') := by
  rw [chain, List.foldlM_cons]
  exact run_bind_eq_ok_iff

end Transpiler

namespace RewriteStage

variable {stage : RewriteStage} {stream stream' : List NativeInstruction} {c c' : TranspileContext}

/-- The chain starts from the lifted stream, with what is left of the label supply, and what comes
out is lowered in the pass that the chain worked with. -/
theorem rewrite_eq_ok_iff :
    (stage.rewrite stream).run c = (.ok stream', c') ↔
      ∃ code supply code' c₁ pass,
        Instruction.ofNative stream c.supply = (.ok code, supply) ∧
        (Transpiler.chain stage.transpilers code).run
          (({ c with supply := supply } : TranspileContext).record .before "Original" code) =
            (.ok code', c₁) ∧
        (Instruction.lowerAll code').run (c₁.record .after "Patched" code').lowering =
          (.ok stream', pass) ∧
        c' = { c₁.record .after "Patched" code' with lowering := pass } := by
  unfold rewrite
  constructor
  · intro h
    obtain ⟨_, _, hget, h⟩ := run_bind_eq_ok_iff.1 h
    cases hget
    -- lifting and lowering hand on a state of their own, also when they fail
    generalize hlift : Instruction.ofNative stream c.supply = lifted at h
    obtain ⟨e | code, supply⟩ := lifted
    · obtain ⟨_, _, _, h⟩ := run_bind_eq_ok_iff.1 h
      cases h
    · simp only [run_bind_eq_ok_iff] at h
      obtain ⟨_, _, hsupply, _, _, hbefore, code', c₁, hchain, _, _, hafter, _, _, hget, h⟩ := h
      cases hsupply
      cases hbefore
      cases hafter
      cases hget
      generalize hlower : (Instruction.lowerAll code').run
        (c₁.record .after "Patched" code').lowering = lowered at h
      obtain ⟨lowered, pass⟩ := lowered
      obtain ⟨_, _, hpass, h⟩ := run_bind_eq_ok_iff.1 h
      cases hpass
      cases lowered with
      | error e => cases h
      | ok out =>
        cases h
        exact ⟨code, supply, code', c₁, pass, rfl, hchain, hlower, rfl⟩
  · rintro ⟨code, supply, code', c₁, pass, hlift, hchain, hlower, rfl⟩
    refine run_bind_eq_ok_iff.2 ⟨c, c, rfl, ?_⟩
    simp only [hlift, run_bind_eq_ok_iff]
    refine ⟨(), _, rfl, (), _, rfl, code', c₁, hchain, (), _, rfl, _, _, rfl, ?_⟩
    simp only [hlower, run_bind_eq_ok_iff]
    exact ⟨(), _, rfl, rfl⟩

/-- What the chain of a stage starts with, besides the instructions. -/
def context (stage : RewriteStage) (method : MethodRef) (g : Generator) (journal : Journal) :
    TranspileContext :=
  { method := method
    mode := stage.mode
    supply := journal.supply
    lowering := { generator := g, level := stage.mode.emitLevel, log := journal.log }
    notes := journal.notes }

theorem run_eq_ok_iff {method : MethodRef} {g g' : Generator} {journal journal' : Journal} :
    stage.run method stream g journal = (.ok (stream', g'), journal') ↔
      (method == stage.method) = true ∧ ∃ c,
        (stage.rewrite stream).run (stage.context method g journal) = (.ok stream', c) ∧
        g' = c.lowering.generator ∧
        journal' = { supply := c.supply, log := c.lowering.log, notes := c.notes } := by
  unfold run
  cases hmethod : method == stage.method with
  | false =>
    constructor
    · intro h
      cases h
    · rintro ⟨h, -⟩
      cases h
  | true =>
    rw [if_pos rfl, context]
    generalize (stage.rewrite stream).run _ = outcome
    obtain ⟨result, c⟩ := outcome
    rw [Prod.mk.injEq, map_eq_ok_iff]
    constructor
    · rintro ⟨⟨out, rfl, heq⟩, rfl⟩
      cases heq
      exact ⟨rfl, c, rfl, rfl, rfl⟩
    · rintro ⟨-, _, heq, rfl, rfl⟩
      cases heq
      exact ⟨⟨stream', rfl, rfl⟩, rfl⟩

end RewriteStage

end MethodWeave
