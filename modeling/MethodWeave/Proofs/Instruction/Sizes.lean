import Mathlib.Algebra.Order.BigOperators.Group.List
import Mathlib.Algebra.Order.Ring.Nat
import MethodWeave.Proofs.Instruction.Lowering
import MethodWeave.Proofs.Native.Encodable
/-!
How many bytes instructions take in code.

The estimate `Instruction.maxBytes` looks at the kind of the operand; the layout looks at the class
of the operand in the table of opcodes, and at the form that a branch ends up in.  The two meet in
the check that a stream passes before it is laid out: what suits a class is of a kind that has room
for it (`Operand.size_le_maxBytes`).  Main result: `length_code_le_maxBytes`, encoded code is no
longer than its estimate, as a whole and instruction by instruction.
-/

namespace MethodWeave

/-! ### Operands and forms -/

/-- **What suits the class of an opcode takes no more bytes than the kind of its operand has room
for.** -/
theorem Operand.size_le_maxBytes {o : Operand} {p : Payload Label} {info : Opcode.Info}
    (hp : o.payload? = some p) (hsuits : info.suits p = true) :
    info.operand.size p.targets.length ≤ o.maxBytes := by
  -- the kind of the operand leaves one class or two, of which the room is that of the larger
  cases o with
  | none =>
    cases hp
    rw [Opcode.Info.suits_none_iff.1 hsuits]
    decide
  | branchTarget l? =>
    obtain ⟨l, -, rfl⟩ := Option.map_eq_some_iff.1 hp
    -- a short branch has the room of a long one, so that it can be widened
    rcases Opcode.Info.suits_label_iff.1 hsuits with hc | hc <;> rw [hc]
    · exact (by decide : 1 ≤ 4)
    · exact Nat.le_refl 4
  | int32 v =>
    cases hp
    rcases Opcode.Info.suits_int32_iff.1 hsuits with hc | hc <;> rw [hc]
    · exact (by decide : 1 ≤ 4)
    · exact Nat.le_refl 4
  | int64 v =>
    cases hp
    rw [Opcode.Info.suits_int64_iff.1 hsuits]
    exact Nat.le_refl 8
  | float32 v =>
    cases hp
    rw [Opcode.Info.suits_float32_iff.1 hsuits]
    exact Nat.le_refl 4
  | float64 v =>
    cases hp
    rw [Opcode.Info.suits_float64_iff.1 hsuits]
    exact Nat.le_refl 8
  | string s? =>
    obtain ⟨s, -, rfl⟩ := Option.map_eq_some_iff.1 hp
    rw [Opcode.Info.suits_string_iff.1 hsuits]
    exact Nat.le_refl 4
  | member kind m? =>
    obtain ⟨m, -, rfl⟩ := Option.map_eq_some_iff.1 hp
    rw [OperandClass.size_of_isMember (Opcode.Info.isMember_of_suits hsuits)]
    exact Nat.le_refl 4
  | signature s? =>
    obtain ⟨s, -, rfl⟩ := Option.map_eq_some_iff.1 hp
    rw [Opcode.Info.suits_signature_iff.1 hsuits]
    exact Nat.le_refl 4
  | «local» l? =>
    obtain ⟨l, -, rfl⟩ := Option.map_eq_some_iff.1 hp
    rcases (Opcode.Info.suits_local_iff.1 hsuits).1 with hc | hc <;> rw [hc]
    · exact (by decide : 1 ≤ 2)
    · exact Nat.le_refl 2
  | argument slot =>
    cases hp
    rcases (Opcode.Info.suits_argument_iff.1 hsuits).1 with hc | hc <;> rw [hc]
    · exact (by decide : 1 ≤ 2)
    · exact Nat.le_refl 2
  | switch ls =>
    cases hp
    rw [Opcode.Info.suits_labels_iff.1 hsuits]
    exact Nat.le_refl _

/-- **In every form that it may take, an instruction is no longer than its estimate.** -/
theorem Instruction.LowersTo.sizeAs_le {s : Lowering} {i : Instruction} {n : NativeInstruction}
    (h : i.LowersTo s n) {info : Opcode.Info} (hinfo : n.opcode.info? = some info)
    (hsuits : info.suits n.operand = true) {form : Opcode} (hform : n.TakesForm form) :
    n.sizeAs form ≤ i.maxBytes := by
  obtain ⟨p, hp, hrelated⟩ := h.operand
  obtain ⟨info', hinfo', hsuits'⟩ := hform.suits hinfo hsuits
  have hoperand : info'.operand.size n.operand.targets.length ≤ i.operand.maxBytes := by
    rw [← hrelated.targets.length_eq]
    exact Operand.size_le_maxBytes hp (by rw [hrelated.suits, hsuits'])
  rw [NativeInstruction.sizeAs_eq hinfo']
  exact Nat.add_le_add form.size_bounds.2 hoperand

/-! ### Written instructions -/

/-- The bytes of an instruction of a layout: those of its form, and those of its operand, with some
place in the stream and some token for the string that it loads. -/
def Placed.Writes (bound : List (NativeLabel × Nat)) (localCount : Nat) (p : Placed)
    (bytes : List UInt8) : Prop :=
  ∃ index token operand, p.operandBytes index bound localCount token = .ok operand ∧
    bytes = p.form.bytes ++ operand

/-- They are as many as the layout leaves for it. -/
theorem Placed.Writes.length_eq {bound : List (NativeLabel × Nat)} {localCount : Nat} {p : Placed}
    {bytes : List UInt8} (h : p.Writes bound localCount bytes) {info : Opcode.Info}
    (hinfo : p.form.info? = some info) (hsuits : info.suits p.insn.operand = true) :
    bytes.length = p.insn.sizeAs p.form := by
  obtain ⟨index, token, operand, hoperand, rfl⟩ := h
  rw [List.length_append, Opcode.length_bytes, Placed.length_of_operandBytes hinfo hsuits hoperand]

section

variable {μ : Type} [Metadata μ] {metadata metadata' : μ}

/-- What is written for a layout falls into the bytes of its instructions. -/
theorem exists_pieces_of_writeFrom {bound : List (NativeLabel × Nat)} {localCount index : Nat}
    {placed : List Placed} {code : List UInt8}
    (h : writeFrom bound localCount index metadata placed = (.ok code, metadata')) :
    ∃ pieces : List (List UInt8), pieces.flatten = code ∧
      List.Forall₂ (Placed.Writes bound localCount) placed pieces := by
  induction placed generalizing index metadata code with
  | nil => cases h; exact ⟨[], rfl, .nil⟩
  | cons p rest ih =>
    obtain ⟨operand, more, hoperand, hmore, rfl⟩ := writeFrom_cons_eq_ok_iff.1 h
    obtain ⟨pieces, rfl, hpieces⟩ := ih hmore
    exact ⟨_ :: pieces, rfl, .cons ⟨index, _, operand, hoperand, rfl⟩ hpieces⟩

variable {s s' : Lowering} {is : List Instruction} {stream : List NativeInstruction} {g : Generator}
  {body : Body}

/-- **Encoded code is no longer than its estimate**, as a whole and instruction by instruction: it
falls into the bytes of the instructions in the forms that they end up in, and in every form that
an instruction may take it is no longer than its own estimate. -/
theorem length_code_le_maxBytes (hlower : (Instruction.lowerAll is).run s = (.ok stream, s'))
    (hencode : g.encode stream metadata = (.ok body, metadata')) :
    body.code.length ≤ (is.map Instruction.maxBytes).sum ∧
      (∃ pieces : List (List UInt8), pieces.flatten = body.code ∧
        List.Forall₂ (Placed.Writes (bindings (settle stream)) g.locals.length) (settle stream)
          pieces ∧
        List.Forall₂ (fun i piece => piece.length ≤ i.maxBytes) is pieces) ∧
      List.Forall₂ (fun i n => ∀ form, n.TakesForm form → n.sizeAs form ≤ i.maxBytes) is
        stream := by
  obtain ⟨-, -, hlowers⟩ := Instruction.lowersTo_of_lowerAll hlower
  obtain ⟨hcheck, -, hwrite, -⟩ := Generator.encode_eq_ok_iff.1 hencode
  have hchecked := checkFrom_iff.1 hcheck
  -- the code falls into the bytes of the placed instructions, each in some form
  obtain ⟨pieces, hflatten, hwrites⟩ := exists_pieces_of_writeFrom hwrite
  have hforms : List.Forall₂ (fun i n => ∀ form, n.TakesForm form → n.sizeAs form ≤ i.maxBytes)
      is stream := (forall₂_and_mem hlowers).imp fun i n ⟨_, hn, h⟩ form hform => by
    obtain ⟨info, hinfo, hsuits⟩ := hchecked n hn
    exact h.sizeAs_le hinfo hsuits hform
  have hpieces : List.Forall₂ (fun i piece => piece.length ≤ i.maxBytes) is pieces := by
    have hplaced := hforms
    rw [← map_insn_settle stream, List.forall₂_map_right_iff] at hplaced
    refine (forall₂_comp hplaced (forall₂_and_mem hwrites)).imp ?_
    rintro i piece ⟨p, hsizes, hp, -, hpiece⟩
    obtain ⟨hinsn, htakes⟩ := mem_of_mem_settle hp
    obtain ⟨info, hinfo, hsuits⟩ := hchecked _ hinsn
    obtain ⟨info', hinfo', hsuits'⟩ := htakes.suits hinfo hsuits
    rw [hpiece.length_eq hinfo' hsuits']
    exact hsizes _ htakes
  refine ⟨?_, ⟨pieces, hflatten, hwrites, hpieces⟩, hforms⟩
  -- the bound of the whole is the sum of the bounds of the pieces
  have hlengths : List.Forall₂ (· ≤ ·) (pieces.map List.length) (is.map Instruction.maxBytes) := by
    rw [List.forall₂_map_left_iff, List.forall₂_map_right_iff]
    exact hpieces.flip
  rw [← hflatten, List.length_flatten]
  exact hlengths.sum_le_sum

end

/-- A short branch over fifteen wide constants and a jump table: too far for its short form. -/
def farBranch : List Instruction :=
  { opcode := ⟨0x2b⟩, operand := .branchTarget (some { id := 5 }) } ::
    (List.replicate 15 { opcode := ⟨0x21⟩, operand := .int64 7 } ++
      [{ opcode := ⟨0x45⟩, operand := .switch [{ id := 5 }, { id := 5 }] },
        { opcode := Opcode.ret, operand := .none, labels := [{ id := 5 }] }])

/-- Its branch is widened, and the code is within the estimate. -/
theorem length_code_farBranch :
    ∃ stream s' body tables,
      (Instruction.lowerAll farBranch).run {} = (.ok stream, s') ∧
        s'.generator.encode stream ({} : MetadataTables) = (.ok body, tables) ∧
          body.code.head? = some 0x38 ∧ body.code.length = 154 ∧
            body.code.length ≤ (farBranch.map Instruction.maxBytes).sum := by
  obtain ⟨stream, s', hlower, body, tables, hencode, hhead, hlength⟩ :
      ∃ stream s', (Instruction.lowerAll farBranch).run {} = (.ok stream, s') ∧
        ∃ body tables, s'.generator.encode stream ({} : MetadataTables) = (.ok body, tables) ∧
          body.code.head? = some 0x38 ∧ body.code.length = 154 :=
    ⟨_, _, rfl, _, _, rfl, rfl, rfl⟩
  exact ⟨stream, s', body, tables, hlower, hencode, hhead, hlength,
    (length_code_le_maxBytes hlower hencode).1⟩

end MethodWeave
