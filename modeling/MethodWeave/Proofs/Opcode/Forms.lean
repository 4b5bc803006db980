import MethodWeave.Native.Encode
import MethodWeave.Opcode.Table
/-!
What the table says of opcodes with two forms and of opcodes that name a slot.
-/

namespace MethodWeave

/-- Classes whose operand is the token of a member. -/
def OperandClass.isMember : OperandClass → Bool
  | .field | .method | .type | .member => true
  | _ => false

namespace Opcode

/-- The opcodes with a long form are just the branches of 8 bits, and the long form is a branch of
32 bits. -/
theorem longForm_of_mem_table :
    ∀ i ∈ table, i.opcode.longForm?.map (fun long => long.info?.map Info.operand) =
      if i.operand = .shortBranch then some (some .branch) else none := by
  decide +kernel

/-- An opcode that takes the index of a slot takes either a local or an argument. -/
theorem argument_of_mem_table :
    ∀ i ∈ table, i.operand = .shortVar ∨ i.operand = .var → i.has .argument = !i.has .local := by
  decide +kernel

variable {op long : Opcode} {i : Info}

theorem operandClass?_of_info? (h : op.info? = some i) : op.operandClass? = some i.operand := by
  rw [operandClass?, h]
  rfl

theorem longForm_of_info? (h : op.info? = some i) :
    op.longForm?.map (fun long => long.info?.map Info.operand) =
      if i.operand = .shortBranch then some (some .branch) else none := by
  rw [← opcode_of_info? h]
  exact longForm_of_mem_table i (mem_table_of_info? h)

/-- Long forms have high codes. -/
theorem code_of_longForm? (h : op.longForm? = some long) :
    0x38 ≤ long.code.toNat ∧ long ≠ leaveShort := by
  obtain ⟨code⟩ := op
  simp only [longForm?] at h
  split at h
  · next hrange =>
    cases h
    have hlow : 0x2b ≤ code.toNat := UInt16.le_iff_toNat_le.1 hrange.1
    have hhigh : code.toNat ≤ 0x37 := UInt16.le_iff_toNat_le.1 hrange.2
    have hcode : (code + 0x0d).toNat = code.toNat + 0x0d := by
      rw [UInt16.toNat_add]
      show (_ + 0x0d) % 0x10000 = _
      omega
    refine ⟨by rw [hcode]; omega, fun h => ?_⟩
    have : (code + 0x0d).toNat = 0xde := congrArg (fun op : Opcode => op.code.toNat) h
    omega
  · split at h
    · cases h; exact ⟨by decide, by decide⟩
    · cases h

/-- A long form has no longer one. -/
theorem longForm?_of_longForm? (h : op.longForm? = some long) : long.longForm? = none := by
  obtain ⟨hcode, hleave⟩ := code_of_longForm? h
  have hshort : ¬ (0x2b ≤ long.code ∧ long.code ≤ 0x37) := by
    rintro ⟨-, h⟩
    have : long.code.toNat ≤ 0x37 := UInt16.le_iff_toNat_le.1 h
    omega
  rw [longForm?, if_neg hshort, if_neg hleave]

@[simp] theorem widened_widened (op : Opcode) : op.widened.widened = op.widened := by
  cases hlong : op.longForm? with
  | none => rw [widened, widened, hlong, Option.getD_none, hlong, Option.getD_none]
  | some long =>
    rw [widened, widened, hlong, Option.getD_some, longForm?_of_longForm? hlong, Option.getD_none]

theorem operand_of_longForm? (h : op.info? = some i) (hl : op.longForm? = some long) :
    i.operand = .shortBranch ∧ ∃ j, long.info? = some j ∧ j.operand = .branch := by
  have htable := longForm_of_info? h
  rw [hl] at htable
  split at htable
  · next hs => exact ⟨hs, Option.map_eq_some_iff.1 (Option.some.inj htable)⟩
  · cases htable

theorem isSome_longForm? (h : op.info? = some i) (hs : i.operand = .shortBranch) :
    op.longForm?.isSome = true := by
  have htable := longForm_of_info? h
  rw [if_pos hs] at htable
  cases hl : op.longForm? with
  | some long => rfl
  | none => simp [hl] at htable

/-- The opcodes between 0x2b and 0x37 are branches of 8 bits, and those 0x0d behind them branches of
32 bits. -/
theorem operandClass?_of_lt : ∀ n < 13,
    (Opcode.mk (0x2b + UInt16.ofNat n)).operandClass? = some .shortBranch ∧
      (Opcode.mk (0x2b + UInt16.ofNat n + 0x0d)).operandClass? = some .branch := by
  decide +kernel

/-- What has a long form is a branch of 8 bits, and the long form is one of 32 bits. -/
theorem operandClass?_of_longForm? (h : op.longForm? = some long) :
    op.operandClass? = some .shortBranch ∧ long.operandClass? = some .branch := by
  obtain ⟨code⟩ := op
  simp only [longForm?] at h
  split at h
  · next hrange =>
    cases h
    have hlow : 0x2b ≤ code.toNat := UInt16.le_iff_toNat_le.1 hrange.1
    have hhigh : code.toNat ≤ 0x37 := UInt16.le_iff_toNat_le.1 hrange.2
    have hcode : 0x2b + UInt16.ofNat (code.toNat - 0x2b) = code := by
      apply UInt16.toNat_inj.1
      rw [UInt16.toNat_add, UInt16.toNat_ofNat_of_lt' (by show _ < 2 ^ 16; omega)]
      show (0x2b + _) % 0x10000 = _
      omega
    have hclasses := operandClass?_of_lt (code.toNat - 0x2b) (by omega)
    rwa [hcode] at hclasses
  · split at h
    · next hleave =>
      cases h
      rw [hleave]
      decide
    · cases h

/-- Just the branches of 8 bits have a long form. -/
theorem operandClass?_eq_shortBranch_iff :
    op.operandClass? = some .shortBranch ↔ ∃ long, op.longForm? = some long := by
  constructor
  · intro h
    obtain ⟨i, hi, hc⟩ := Option.map_eq_some_iff.1 h
    exact Option.isSome_iff_exists.1 (isSome_longForm? hi hc)
  · rintro ⟨long, hlong⟩
    exact (operandClass?_of_longForm? hlong).1

theorem has_argument (h : op.info? = some i) (hc : i.operand = .shortVar ∨ i.operand = .var) :
    i.has .argument = !i.has .local :=
  argument_of_mem_table i (mem_table_of_info? h) hc

/-! ### Which opcodes a payload suits -/

section

variable {τ : Type}

theorem Info.suits_none_iff : i.suits (.none : Payload τ) = true ↔ i.operand = .none := by
  unfold Info.suits
  cases i.operand <;> simp

theorem Info.suits_label_iff {t : τ} :
    i.suits (.label t) = true ↔ i.operand = .shortBranch ∨ i.operand = .branch := by
  unfold Info.suits
  cases i.operand <;> simp

theorem Info.suits_labels_iff {ts : List τ} :
    i.suits (.labels ts) = true ↔ i.operand = .switch := by
  unfold Info.suits
  cases i.operand <;> simp

theorem Info.suits_int32_iff {v : Int32} :
    i.suits (.int32 v : Payload τ) = true ↔ i.operand = .shortInt ∨ i.operand = .int := by
  unfold Info.suits
  cases i.operand <;> simp

theorem Info.suits_int64_iff {v : Int64} :
    i.suits (.int64 v : Payload τ) = true ↔ i.operand = .int8 := by
  unfold Info.suits
  cases i.operand <;> simp

theorem Info.suits_float32_iff {v : Binary32} :
    i.suits (.float32 v : Payload τ) = true ↔ i.operand = .shortReal := by
  unfold Info.suits
  cases i.operand <;> simp

theorem Info.suits_float64_iff {v : Binary64} :
    i.suits (.float64 v : Payload τ) = true ↔ i.operand = .real := by
  unfold Info.suits
  cases i.operand <;> simp

theorem Info.suits_string_iff {s : String} :
    i.suits (.string s : Payload τ) = true ↔ i.operand = .string := by
  unfold Info.suits
  cases i.operand <;> simp

theorem Info.isMember_of_suits {m : Member} (h : i.suits (.member m : Payload τ) = true) :
    i.operand.isMember = true := by
  unfold Info.suits at h
  cases ho : i.operand <;> simp_all [OperandClass.isMember]

theorem Info.suits_signature_iff {s : Signature} :
    i.suits (.signature s : Payload τ) = true ↔ i.operand = .signature := by
  unfold Info.suits
  cases i.operand <;> simp

theorem Info.suits_local_iff {l : Local} :
    i.suits (.local l : Payload τ) = true ↔
      (i.operand = .shortVar ∨ i.operand = .var) ∧ i.has .local = true := by
  unfold Info.suits
  cases i.operand <;> simp

theorem Info.suits_argument_iff {index : UInt16} :
    i.suits (.argument index : Payload τ) = true ↔
      (i.operand = .shortVar ∨ i.operand = .var) ∧ i.has .argument = true := by
  unfold Info.suits
  cases i.operand <;> simp

end

end Opcode

end MethodWeave
