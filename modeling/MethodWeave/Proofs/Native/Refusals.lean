import MethodWeave.Proofs.Failing
import MethodWeave.Proofs.Native.Encodable
/-!
What a refusal to encode says of the stream.

An error of the encoder has its reason in the stream (`EncodeError.Blames`): an opcode is refused
only if some operand does not suit its opcode, a label only if it marks nothing or labels mark two
places.  Main result: `blames_encode`.
-/

namespace MethodWeave

/-- What has to be wrong with a stream for the error to be reported.  Of errors about values, locals
and regions nothing is said. -/
def EncodeError.Blames (stream : List NativeInstruction) : EncodeError → Prop
  | .unknownOpcode _ _ | .operandMismatch _ _ =>
    ¬ ∀ n ∈ stream, ∃ info, n.opcode.info? = some info ∧ info.suits n.operand = true
  | .labelRebound _ _ => ¬ (stream.flatMap (·.labels)).Nodup
  | .unboundLabel _ l => ∃ n ∈ stream, l ∈ n.operand.targets ∧ l ∉ stream.flatMap (·.labels)
  | .immediateOutOfRange _ _ | .unbalancedRegions _ | .unknownLocal _ _ => True

/-! ### Checks -/

/-- Only an opcode or an operand is found wrong with the operands. -/
theorem failsOnly_checkFrom (index : Nat) (stream : List NativeInstruction) :
    FailsOnly (fun e => e.kind = "UnknownOpcode" ∨ e.kind = "OperandMismatch")
      (checkFrom index stream) := by
  have hone (index : Nat) (n : NativeInstruction) :
      FailsOnly (fun e => e.kind = "UnknownOpcode" ∨ e.kind = "OperandMismatch")
        (n.check index) := by
    unfold NativeInstruction.check
    cases n.opcode.info? with
    | none => exact .of_error (.inl rfl)
    | some info => exact .ite (.of_ok _) (.of_error (.inr rfl))
  induction stream generalizing index with
  | nil => exact .of_ok _
  | cons n rest ih => exact (hone index n).bind fun _ => ih _

/-- Only a label that marks two places is found wrong with the labels. -/
theorem failsOnly_checkLabelsFrom (index : Nat) (bound : List NativeLabel)
    (stream : List NativeInstruction) :
    FailsOnly (fun e => e.kind = "LabelRebound") (checkLabelsFrom index bound stream) := by
  have hbind (bound labels : List NativeLabel) (index : Nat) :
      FailsOnly (fun e => e.kind = "LabelRebound") (bindAll index bound labels) := by
    induction labels generalizing bound with
    | nil => exact .of_ok _
    | cons l rest ih => exact .ite (.of_error rfl) (ih _)
  induction stream generalizing index bound with
  | nil => exact .of_ok _
  | cons n rest ih => exact (hbind _ _ _).bind fun _ => ih _ _

/-- Labels that mark two places are found wrong. -/
theorem checkLabels_of_not_nodup {stream : List NativeInstruction}
    (h : ¬ (stream.flatMap (·.labels)).Nodup) :
    ∃ e, checkLabelsFrom 0 [] stream = .error e ∧ e.kind = "LabelRebound" := by
  cases hcheck : checkLabelsFrom 0 [] stream with
  | ok _ => exact absurd (checkLabelsFrom_iff.1 hcheck).1 h
  | error e => exact ⟨e, rfl, failsOnly_checkLabelsFrom 0 [] stream e hcheck⟩

theorem checkLabels_of_nodup {stream : List NativeInstruction}
    (h : (stream.flatMap (·.labels)).Nodup) : checkLabelsFrom 0 [] stream = .ok () :=
  checkLabelsFrom_iff.2 ⟨h, fun _ _ => List.not_mem_nil⟩

/-! ### Writing -/

section

variable {stream : List NativeInstruction} {bound : List (NativeLabel × Nat)} {localCount : Nat}

theorem blames_varBytes (index : Nat) (c : OperandClass) (slot : UInt16) :
    FailsOnly (EncodeError.Blames stream) (varBytes index c slot) := by
  unfold varBytes
  exact .ite (.ite (.of_ok _) (.of_error trivial)) (.of_ok _)

/-- An operand that suits the form that it is written in is written, or refused for its value or for
a label that has no place. -/
theorem Placed.blames_operandBytes {p : Placed} {info : Opcode.Info}
    (hrow : p.form.info? = some info) (hsuits : info.suits p.insn.operand = true) {index : Nat}
    (hreach : ∀ l ∈ p.insn.operand.targets, bound.lookup l = none →
      (EncodeError.unboundLabel index l).Blames stream) (token : Token) :
    FailsOnly (EncodeError.Blames stream) (p.operandBytes index bound localCount token) := by
  have hreach : ∀ l ∈ p.insn.operand.targets,
      FailsOnly (EncodeError.Blames stream) (p.reach index bound l) := by
    intro l hl
    unfold Placed.reach Placed.displacement?
    cases hlookup : bound.lookup l with
    | none => exact .of_error (hreach l hl hlookup)
    | some k => exact .of_ok _
  unfold Placed.operandBytes
  rw [Opcode.operandClass?_of_info? hrow]
  -- the payload suits the class, so the last branch of the writer is never taken
  cases hoperand : p.insn.operand with
  | label l =>
    rw [hoperand] at hsuits hreach
    rcases Opcode.Info.suits_label_iff.1 hsuits with hc | hc <;> rw [hc] <;>
      exact (hreach l (List.mem_singleton_self l)).bind fun _ => .of_ok _
  | labels ls =>
    rw [hoperand] at hsuits hreach
    rw [Opcode.Info.suits_labels_iff.1 hsuits]
    exact (FailsOnly.mapM hreach).bind fun _ => .of_ok _
  | int32 v =>
    rw [hoperand, Opcode.Info.suits_int32_iff] at hsuits
    rcases hsuits with hc | hc <;> rw [hc]
    · exact FailsOnly.ite (.of_ok _) (.of_error trivial)
    · exact .of_ok _
  | «local» l =>
    rw [hoperand, Opcode.Info.suits_local_iff] at hsuits
    rcases hsuits.1 with hc | hc <;> rw [hc] <;>
      exact FailsOnly.ite (blames_varBytes _ _ _) (.of_error trivial)
  | argument slot =>
    rw [hoperand, Opcode.Info.suits_argument_iff] at hsuits
    rcases hsuits.1 with hc | hc <;> rw [hc] <;> exact blames_varBytes _ _ _
  | _ => cases info.operand <;> exact .of_ok _

theorem blames_writeFrom {μ : Type} [Metadata μ] {placed : List Placed}
    (hsuits : ∀ p ∈ placed, ∃ info, p.form.info? = some info ∧ info.suits p.insn.operand = true)
    (hreach : ∀ p ∈ placed, ∀ l ∈ p.insn.operand.targets, bound.lookup l = none →
      ∀ index, (EncodeError.unboundLabel index l).Blames stream) (index : Nat) (metadata : μ) :
    FailsOnly (EncodeError.Blames stream)
      (writeFrom bound localCount index metadata placed).1 := by
  induction placed generalizing index metadata with
  | nil => exact .of_ok _
  | cons p rest ih =>
    obtain ⟨⟨info, hrow, hsuits⟩, hsuitsRest⟩ := List.forall_mem_cons.1 hsuits
    obtain ⟨hreach, hreachRest⟩ := List.forall_mem_cons.1 hreach
    have hfirst : FailsOnly (EncodeError.Blames stream)
        (p.operandBytes index bound localCount (p.internString metadata).1) :=
      Placed.blames_operandBytes hrow hsuits (fun l hl hnone => hreach l hl hnone index) _
    simp only [writeFrom]
    cases hbytes : p.operandBytes index bound localCount (p.internString metadata).1 with
    | error e => exact .of_error (hfirst e hbytes)
    | ok bytes => exact (ih hsuitsRest hreachRest _ _).map _

end

/-- **A refusal has its reason in the stream.** -/
theorem blames_encode {μ : Type} [Metadata μ] (g : Generator) (stream : List NativeInstruction)
    (metadata : μ) : FailsOnly (EncodeError.Blames stream) (g.encode stream metadata).1 := by
  unfold Generator.encode
  cases hcheck : checkFrom 0 stream with
  | error e =>
    refine .of_error ?_
    have hnot : ¬ ∀ n ∈ stream, ∃ info, n.opcode.info? = some info ∧
        info.suits n.operand = true := by
      intro hall
      rw [checkFrom_iff.2 hall] at hcheck
      cases hcheck
    have hkind := failsOnly_checkFrom 0 stream e hcheck
    cases e with
    | unknownOpcode | operandMismatch => exact hnot
    | _ => simp [EncodeError.kind] at hkind
  | ok _ =>
    have hsuits := checkFrom_iff.1 hcheck
    simp only [bind, Except.bind]
    by_cases hnodup : (stream.flatMap (·.labels)).Nodup
    · have hplaced : ∀ p ∈ settle stream,
          ∃ info, p.form.info? = some info ∧ info.suits p.insn.operand = true := by
        intro p hp
        obtain ⟨hn, hform⟩ := mem_of_mem_settle hp
        obtain ⟨info, hrow, hsuits⟩ := hsuits _ hn
        -- the long form of a branch suits what the short form suits
        exact hform.suits hrow hsuits
      have hreach : ∀ p ∈ settle stream, ∀ l ∈ p.insn.operand.targets,
          (bindings (settle stream)).lookup l = none →
            ∀ index, (EncodeError.unboundLabel index l).Blames stream := by
        intro p hp l hl hnone index
        refine ⟨p.insn, (mem_of_mem_settle hp).1, hl, fun hmem => ?_⟩
        obtain ⟨k, hk⟩ := exists_lookup_settle_iff.2 hmem
        rw [hnone] at hk
        cases hk
      have hwrite : FailsOnly (EncodeError.Blames stream)
          (writeFrom (bindings (settle stream)) g.locals.length 0 metadata (settle stream)).1 :=
        blames_writeFrom hplaced hreach 0 metadata
      rw [checkLabels_of_nodup hnodup]
      refine hwrite.bind fun code => ?_
      cases clausesFrom (codeSize (settle stream)) 0 {}
        ((settle stream).map fun p => (p.start, p.insn.markers)) with
      | error index => exact .of_error trivial
      | ok clauses => exact .of_ok _
    · obtain ⟨e, he, hkind⟩ := checkLabels_of_not_nodup hnodup
      rw [he]
      refine .of_error ?_
      cases e with
      | labelRebound => exact hnodup
      | _ => simp [EncodeError.kind] at hkind

end MethodWeave
