import Mathlib.Algebra.Order.BigOperators.Group.List
import Mathlib.Algebra.Order.Ring.Nat
import MethodWeave.Proofs.Instruction.Labelling
import MethodWeave.Proofs.Native.Writing
/-!
How many labels are handed out, and which numbers they have.

Positions and labels are counted without a limit, which agrees with 32 bits as long as the numbers
stay below `2 ^ 32`.  A pass never asks for more labels than it goes through: reading asks for no
more than a body has bytes, lowering for no more than the code mentions.

Main results: `fitsWords_of_decode`, what is read from a body has numbers of 32 bits if the labels
handed out before leave one for each byte, and `number_lt_of_decode`, so has what that is lowered
to.
-/

namespace MethodWeave

/-! ### Words -/

/-- The offset of an instruction and the numbers of its labels fit 32 bits. -/
structure Instruction.FitsWords (i : Instruction) : Prop where
  offset : ∀ offset, i.offset? = some offset → offset < 0x100000000
  labels : ∀ l ∈ i.mentions, l.id < 0x100000000

/-! ### Labels of positions -/

namespace PositionLabels

/-- A position takes one label at most. -/
theorem next_label_le (position : Nat) (s : PositionLabels) :
    (label position s).2.supply.next ≤ s.supply.next + 1 := by
  unfold label
  split
  · exact Nat.le_succ _
  · exact Nat.le_refl _

theorem next_le_of_target {t : Int} {s s' : PositionLabels} {l : Label}
    (h : (target t).run s = (.ok l, s')) : s'.supply.next ≤ s.supply.next + 1 := by
  unfold target at h
  split at h
  · have hnext := next_label_le t.toNat s
    rwa [run_lift_eq_ok_iff.1 h] at hnext
  · cases h

end PositionLabels

theorem Scanned.next_le_of_labelled {s : Scanned} {st st' : PositionLabels} {i : Instruction}
    (h : s.labelled.run st = (.ok i, st')) :
    st'.supply.next ≤ st.supply.next + s.payload.targets.length := by
  simp only [Scanned.labelled, run_bind_eq_ok_iff, run_pure_eq_ok_iff] at h
  obtain ⟨p, st₁, hp, -, rfl⟩ := h
  exact count_mapTargets_le_of_ok (fun st => st.supply.next) PositionLabels.next_le_of_target hp

section

variable {μ : Type} [Metadata μ] {metadata : μ}

/-- A payload has a byte at least for each of its targets. -/
theorem Payload.Spelled.length_targets_le {locals : List TypeRef} {info : Opcode.Info} {stop : Nat}
    {q : Payload Int} {bytes : List UInt8} (h : q.Spelled metadata locals info stop bytes) :
    q.targets.length ≤ bytes.length := by
  cases h with
  | shortBranch => exact Nat.le_refl _
  | branch => rw [Bytes.length_ofUInt32]; exact Nat.le_add_left 1 3
  | switch =>
    rw [List.length_append, length_flatMap_ofUInt32, targets, List.length_map]
    omega
  | _ => exact Nat.zero_le _

/-- An instruction has a byte for its opcode besides. -/
theorem Scanned.Spelled.length_targets_lt {locals : List TypeRef} {s : Scanned} {bytes : List UInt8}
    (h : s.Spelled metadata locals bytes) : s.payload.targets.length < bytes.length := by
  obtain ⟨-, operand, rfl, hoperand⟩ := h
  have hopcode := s.info.opcode.length_bytes_pos
  have htargets := hoperand.length_targets_le
  rw [List.length_append]
  omega

/-- Instructions and targets together are no more than the bytes that spell them. -/
theorem Spelling.sum_le {locals : List TypeRef} {position : Nat} {ss : List Scanned}
    {code : List UInt8} (h : Spelling metadata locals position ss code) :
    (ss.map fun s => s.payload.targets.length + 1).sum ≤ code.length := by
  induction h with
  | nil => exact Nat.le_refl _
  | cons _ hspelled _ ih =>
    have hfirst := hspelled.length_targets_lt
    rw [List.map_cons, List.sum_cons, List.length_append]
    omega

variable {body : Body} {supply : LabelSupply} {out : List Instruction} {st : PositionLabels}

/-- Reading a body takes no more labels than the code has bytes. -/
theorem next_le_of_decode (h : body.decode metadata supply = (.ok out, st)) :
    st.supply.next ≤ supply.next + body.code.length := by
  obtain ⟨ss, is, hss, his, -, -, -⟩ := Body.decode_eq_ok_iff.1 h
  have hstep {s : Scanned} {st st' : PositionLabels} {i : Instruction}
      (h : s.labelled.run st = (.ok i, st')) :
      st'.supply.next ≤ st.supply.next + (s.payload.targets.length + 1) :=
    Nat.le_succ_of_le (Scanned.next_le_of_labelled h)
  have hcount := count_mapM_le_of_ok (fun st => st.supply.next) hstep his
  exact Nat.le_trans hcount (Nat.add_le_add_left hss.sum_le _)

/-- **What is read from a body fits 32 bits**, if the labels handed out before leave a number for
each byte of the code. -/
theorem fitsWords_of_decode (h : body.decode metadata supply = (.ok out, st))
    (hroom : supply.next + body.code.length < 0x100000000) : ∀ i ∈ out, i.FitsWords := by
  have hnext := next_le_of_decode h
  obtain ⟨ss, hss, hsound, -, hread⟩ := readAs_of_decode h
  have hlabel : ∀ k l, st.labels.get? k = some l → l.id < 0x100000000 := by
    intro k l hl
    have := (hsound.handedOut hl).2
    omega
  intro i hi
  obtain ⟨s, hs, hreadAs⟩ := exists_of_mem_right hread hi
  refine ⟨fun offset hoffset => ?_, fun l hl => ?_⟩
  · have hoffsets := map_offset?_of_decode h hss
    have hmem : some offset ∈ ss.map fun s => some s.offset := by
      rw [← hoffsets, ← hoffset]
      exact List.mem_map_of_mem hi
    obtain ⟨s', hs', heq⟩ := List.mem_map.1 hmem
    have := (hss.offset_bounds s' hs').2
    have := Option.some.inj heq
    omega
  · rcases List.mem_append.1 hl with hl | hl
    · rw [hreadAs.labels, Option.mem_toList] at hl
      exact hlabel _ _ hl
    · obtain ⟨p, hp, hnamed⟩ := hreadAs.operand
      rw [Operand.targets, hp] at hl
      obtain ⟨t, -, -, -, hget⟩ := exists_of_mem_right hnamed.targets hl
      exact hlabel _ _ hget

/-- Code that was read mentions no more labels than there are bytes: an instruction is marked by one
label at most. -/
theorem length_mentioned_le_of_decode (h : body.decode metadata supply = (.ok out, st)) :
    (Instruction.mentioned out).length ≤ body.code.length := by
  obtain ⟨ss, hss, -, -, hread⟩ := readAs_of_decode h
  have hmentions : List.Forall₂ (· ≤ ·) (out.map fun i => i.mentions.length)
      (ss.map fun s => s.payload.targets.length + 1) := by
    rw [List.forall₂_map_left_iff, List.forall₂_map_right_iff]
    refine hread.flip.imp fun i s hreadAs => ?_
    obtain ⟨p, hp, hnamed⟩ := hreadAs.operand
    have hmarks : i.labels.length ≤ 1 := by
      rw [hreadAs.labels]
      exact Option.length_toList_le
    have htargets : i.operand.targets.length = s.payload.targets.length := by
      rw [Operand.targets, hp]
      exact hnamed.targets.length_eq.symm
    rw [Instruction.mentions, List.length_append]
    omega
  rw [Instruction.mentioned, List.length_flatMap]
  exact Nat.le_trans hmentions.sum_le_sum hss.sum_le

end

/-! ### Labels of native streams -/

namespace Lowering

/-- A label takes one native label at most. -/
theorem nextLabel_resolve_le (l : Label) (s : Lowering) :
    (s.resolve l).2.generator.nextLabel ≤ s.generator.nextLabel + 1 := by
  unfold resolve
  split
  · exact Nat.le_succ _
  · split
    · exact Nat.le_succ _
    · exact Nat.le_refl _

end Lowering

namespace Instruction

variable {code : List Instruction} {stream : List NativeInstruction} {s s' : Lowering}

theorem nextLabel_le_of_lower {i : Instruction} {m : NativeInstruction}
    (h : i.lower.run s = (.ok m, s')) :
    s'.generator.nextLabel ≤ s.generator.nextLabel + i.mentions.length := by
  obtain ⟨p, operand, s₁, labels, hp, hoperand, hlabels, -⟩ := run_lower_eq_ok_iff.1 h
  have htargets := count_mapTargets_le (fun s => s.generator.nextLabel)
    Lowering.nextLabel_resolve_le p s
  have hmarks := count_mapM_le_length (fun s => s.generator.nextLabel)
    Lowering.nextLabel_resolve_le i.labels s₁
  rw [hoperand] at htargets
  rw [hlabels] at hmarks
  rw [mentions, List.length_append, Operand.targets, hp]
  simp only [Option.map_some, Option.getD_some] at *
  omega

/-- Lowering takes no more native labels than the code mentions labels. -/
theorem nextLabel_le_of_lowerAll (h : (lowerAll code).run s = (.ok stream, s')) :
    s'.generator.nextLabel ≤ s.generator.nextLabel + (mentioned code).length := by
  rw [mentioned, List.length_flatMap]
  exact count_mapM_le_of_ok (fun s => s.generator.nextLabel) nextLabel_le_of_lower h

/-- Native labels of code that was read are numbered below the count of its bytes. -/
theorem number_lt_of_decode {μ : Type} [Metadata μ] {metadata : μ} {body : Body}
    {supply : LabelSupply} {labels : PositionLabels} {locals : List TypeRef} {g : Generator}
    (hread : body.decode metadata supply = (.ok code, labels))
    (h : lowerWith (.withLocals locals) code = (.ok stream, g)) :
    ∀ t ∈ labelsOf stream, t.number < body.code.length := by
  intro t ht
  unfold lowerWith at h
  generalize hrun : (lowerAll code).run { generator := .withLocals locals } = outcome at h
  obtain ⟨result, pass⟩ := outcome
  cases h
  obtain ⟨-, -, hlowersTo⟩ := lowersTo_of_lowerAll hrun
  obtain ⟨l, hl, hresolved⟩ := exists_resolved_of_lowersTo hlowersTo ht
  have hsince := (Lowering.soundSince_begin (.withLocals locals) .debug {}).draws
    (Lowering.draws_lowerAll hrun)
  have hlt := hsince.resolved_lt (fixedBelow_of_free (free_of_decode hread)) hl hresolved
  -- the generator begins at zero
  have hnext := nextLabel_le_of_lowerAll hrun
  rw [show (Generator.withLocals locals).nextLabel = 0 from rfl, Nat.zero_add] at hnext
  exact Nat.lt_of_lt_of_le hlt (Nat.le_trans hnext (length_mentioned_le_of_decode hread))

end Instruction

end MethodWeave
