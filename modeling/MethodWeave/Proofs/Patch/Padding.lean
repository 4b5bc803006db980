import MethodWeave.Proofs.Patch.Staging
import MethodWeave.Proofs.Instruction.Lifting
import MethodWeave.Proofs.Padded
/-!
Transpilers that only pad.

Such a transpiler leaves the instructions as they are and puts in some that do nothing.  Main
result: `padded_of_run`, a rewrite stage all of whose transpilers only pad makes a padded stream of
a stream, and declares no locals.
-/

namespace MethodWeave

/-- The opcode of an instruction that does nothing. -/
def Opcode.nop : Opcode := ⟨0x00⟩

/-- An instruction that does nothing; no label marks it and no marker stands in front of it. -/
structure Instruction.IsPadding (i : Instruction) : Prop where
  opcode : i.opcode = .nop
  operand : i.operand = .none
  labels : i.labels = []
  markers : i.markers = []

/-- The native form of such an instruction. -/
def NativeInstruction.padding : NativeInstruction := { opcode := .nop }

/-- What the transpiler makes of any instructions, if it does not fail, is those instructions with
some put in that do nothing.  It declares no locals. -/
def Transpiler.OnlyPads (t : Transpiler) : Prop :=
  ∀ code code' c c', (t.run code).run c = (.ok code', c') →
    Padded Instruction.IsPadding code code' ∧
      c'.lowering.generator.locals = c.lowering.generator.locals

/-- Put instructions that do nothing in front of a place. -/
def Transpiler.padAt (place count : Nat) : Transpiler where
  name := "pad"
  run code := pure (code.take place ++
    (List.replicate count { opcode := .nop, operand := .none } ++ code.drop place))

theorem Transpiler.onlyPads_padAt (place count : Nat) : (padAt place count).OnlyPads := by
  intro code code' c c' h
  obtain ⟨rfl, rfl⟩ := run_pure_eq_ok_iff.1 h
  have hpadding : Instruction.IsPadding { opcode := .nop, operand := .none } :=
    ⟨rfl, rfl, rfl, rfl⟩
  have hpadded := (Padded.refl (code.take place)).append
    ((Padded.replicate hpadding count).append (.refl (code.drop place)))
  rw [List.nil_append, List.take_append_drop] at hpadded
  exact ⟨hpadded, rfl⟩

/-- What does nothing is lowered to what does nothing. -/
theorem Instruction.LowersTo.eq_padding {pass : Lowering} {i : Instruction} {n : NativeInstruction}
    (hi : i.IsPadding) (h : i.LowersTo pass n) : n = NativeInstruction.padding := by
  obtain ⟨opcode, operand, labels, markers⟩ := n
  obtain rfl : opcode = .nop := h.opcode.trans hi.opcode
  obtain rfl : markers = [] := h.markers.trans hi.markers
  obtain rfl : operand = .none := by
    obtain ⟨p, hp, hrelated⟩ := h.operand
    rw [hi.operand] at hp
    cases hp
    cases hrelated
    rfl
  obtain rfl : labels = [] := by
    obtain ⟨ts, hts, hsort⟩ := h.labels
    rw [hi.labels] at hts
    cases hts
    exact hsort
  rfl

section

variable {c c' : TranspileContext} {code code' : List Instruction}

theorem Transpiler.OnlyPads.apply {t : Transpiler} (ht : t.OnlyPads)
    (h : (t.apply code).run c = (.ok code', c')) :
    Padded Instruction.IsPadding code code' ∧
      c'.lowering.generator.locals = c.lowering.generator.locals := by
  obtain ⟨hpadded, hlocals⟩ := ht code code' _ c' (Transpiler.apply_eq_ok_iff.1 h)
  rw [TranspileContext.generator_write] at hlocals
  exact ⟨hpadded, hlocals⟩

/-- A chain of transpilers that only pad only pads. -/
theorem padded_of_chain {ts : List Transpiler} (hpads : ∀ t ∈ ts, t.OnlyPads)
    (h : (Transpiler.chain ts code).run c = (.ok code', c')) :
    Padded Instruction.IsPadding code code' ∧
      c'.lowering.generator.locals = c.lowering.generator.locals := by
  induction ts generalizing code c with
  | nil =>
    obtain ⟨rfl, rfl⟩ := Transpiler.chain_nil_eq_ok_iff.1 h
    exact ⟨.refl code, rfl⟩
  | cons t ts ih =>
    obtain ⟨ht, hts⟩ := List.forall_mem_cons.1 hpads
    obtain ⟨code₁, c₁, hfirst, hrest⟩ := Transpiler.chain_cons_eq_ok_iff.1 h
    obtain ⟨hpadded, hlocals⟩ := ht.apply hfirst
    obtain ⟨hpadded', hlocals'⟩ := ih hts hrest
    exact ⟨hpadded.trans hpadded', hlocals'.trans hlocals⟩

variable {stage : RewriteStage} {stream stream' : List NativeInstruction}

theorem padded_of_rewrite (hpads : ∀ t ∈ stage.transpilers, t.OnlyPads)
    (hliftable : ∀ n ∈ stream, Instruction.Liftable n)
    (hlabels : ∀ n ∈ stream, n.labels.Pairwise (·.number < ·.number))
    (h : (stage.rewrite stream).run c = (.ok stream', c')) :
    Padded (· = NativeInstruction.padding) stream stream' ∧
      c'.lowering.generator.locals = c.lowering.generator.locals := by
  obtain ⟨code, supply, code', c₁, pass, hlift, hchain, hlower, rfl⟩ :=
    RewriteStage.rewrite_eq_ok_iff.1 h
  obtain ⟨s, hs, hlifts⟩ := Instruction.liftsTo_of_ofNative hliftable hlift
  obtain ⟨-, hlocals, hlowers⟩ := Instruction.lowersTo_of_lowerAll hlower
  obtain ⟨hpadded, hlocals'⟩ := padded_of_chain hpads hchain
  rw [TranspileContext.generator_record] at hlocals hlocals'
  refine ⟨hpadded.between hlifts hlowers (fun n hn i n' hlift hlower => ?_)
    fun i n hi hlower => hlower.eq_padding hi, hlocals.trans hlocals'⟩
  exact Instruction.eq_of_liftsTo hs (hlabels n hn) hlift hlower

/-- **A stage of transpilers that only pad** makes a padded stream, and declares no locals. -/
theorem padded_of_run {method : MethodRef} {g g' : Generator} {journal journal' : Journal}
    (hpads : ∀ t ∈ stage.transpilers, t.OnlyPads)
    (hliftable : ∀ n ∈ stream, Instruction.Liftable n)
    (hlabels : ∀ n ∈ stream, n.labels.Pairwise (·.number < ·.number))
    (h : stage.run method stream g journal = (.ok (stream', g'), journal')) :
    Padded (· = NativeInstruction.padding) stream stream' ∧ g'.locals = g.locals := by
  obtain ⟨-, c, hrewrite, rfl, -⟩ := RewriteStage.run_eq_ok_iff.1 h
  exact padded_of_rewrite hpads hliftable hlabels hrewrite

end

end MethodWeave
