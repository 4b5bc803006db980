import MethodWeave.Proofs.Native.Writing
/-!
The types of local operands are not written.

An instruction names a local by its slot; the type that stands beside the slot does not get into the
code.  A stream can therefore be read as if each of its local operands had the type that its slot
has been declared with (`encode_retyped`).
-/

namespace MethodWeave

/-- The payload with the type that the slot of a local has been declared with. -/
def Payload.retyped {τ : Type} (locals : List TypeRef) : Payload τ → Payload τ
  | .local l => .local ⟨l.index, (locals[l.index.toNat]?).getD l.type⟩
  | p => p

theorem Payload.string_of_retyped {τ : Type} {locals : List TypeRef} {p : Payload τ} {s : String}
    (h : p.retyped locals = .string s) : p = .string s := by
  cases p <;> first | exact h | cases h

/-- An opcode takes a local of any type. -/
theorem Opcode.Info.suits_retyped {τ : Type} (info : Opcode.Info) (locals : List TypeRef)
    (p : Payload τ) : info.suits (p.retyped locals) = info.suits p := by
  unfold suits
  cases info.operand <;> cases p <;> rfl

namespace NativeInstruction

/-- The instruction with the declared type of a local operand. -/
def retyped (locals : List TypeRef) (i : NativeInstruction) : NativeInstruction :=
  { i with operand := i.operand.retyped locals }

variable (locals : List TypeRef) (i : NativeInstruction)

@[simp] theorem retyped_opcode : (i.retyped locals).opcode = i.opcode := rfl

@[simp] theorem retyped_labels : (i.retyped locals).labels = i.labels := rfl

@[simp] theorem retyped_markers : (i.retyped locals).markers = i.markers := rfl

@[simp] theorem targets_retyped : (i.retyped locals).operand.targets = i.operand.targets := by
  simp only [retyped]
  cases i.operand <;> rfl

theorem sizeAs_retyped (form : Opcode) : (i.retyped locals).sizeAs form = i.sizeAs form := by
  rw [sizeAs, targets_retyped, sizeAs]

theorem check_retyped (index : Nat) : (i.retyped locals).check index = i.check index := by
  simp only [check, retyped, Opcode.Info.suits_retyped]

end NativeInstruction

theorem checkFrom_retyped (locals : List TypeRef) (index : Nat) (stream : List NativeInstruction) :
    checkFrom index (stream.map (·.retyped locals)) = checkFrom index stream := by
  induction stream generalizing index with
  | nil => rfl
  | cons i rest ih => rw [List.map_cons, checkFrom, i.check_retyped, ih, checkFrom]

theorem checkLabelsFrom_retyped (locals : List TypeRef) (index : Nat) (bound : List NativeLabel)
    (stream : List NativeInstruction) :
    checkLabelsFrom index bound (stream.map (·.retyped locals)) =
      checkLabelsFrom index bound stream := by
  induction stream generalizing index bound with
  | nil => rfl
  | cons i rest ih => simp only [List.map_cons, checkLabelsFrom, ih, NativeInstruction.retyped_labels]

/-! ### Layout -/

namespace Placed

/-- The placed instruction with the declared type of a local operand. -/
def retyped (locals : List TypeRef) (p : Placed) : Placed := { p with insn := p.insn.retyped locals }

variable (locals : List TypeRef) (p : Placed) (bound : List (NativeLabel × Nat))

theorem strays_retyped : (p.retyped locals).strays bound = p.strays bound := by
  simp only [strays, retyped, NativeInstruction.retyped]
  cases p.insn.operand <;> rfl

theorem reformed_retyped : (p.retyped locals).reformed bound =
    Prod.map (·.retyped locals) id (p.reformed bound) := by
  rw [reformed, strays_retyped]
  rfl

theorem operandBytes_retyped (index localCount : Nat) (token : Token) :
    (p.retyped locals).operandBytes index bound localCount token =
      p.operandBytes index bound localCount token := by
  obtain ⟨⟨opcode, operand, labels, markers⟩, form, start, stop⟩ := p
  simp only [operandBytes, retyped, NativeInstruction.retyped]
  cases operand with
  | «local» slot =>
    cases form.operandClass? with
    | none => rfl
    | some c => cases c <;> rfl
  | _ => rfl

theorem internString_retyped {μ : Type} [Metadata μ] (metadata : μ) :
    (p.retyped locals).internString metadata = p.internString metadata := by
  simp only [internString, retyped, NativeInstruction.retyped]
  cases p.insn.operand <;> rfl

end Placed

theorem place_retyped (locals : List TypeRef) (position : Nat)
    (pairs : List (NativeInstruction × Opcode)) :
    place position (pairs.map (Prod.map (·.retyped locals) id)) =
      (place position pairs).map (·.retyped locals) := by
  induction pairs generalizing position with
  | nil => rfl
  | cons pair rest ih =>
    simp only [List.map_cons, place, Prod.map, id, ih, NativeInstruction.sizeAs_retyped]
    rfl

theorem bindings_retyped (locals : List TypeRef) (placed : List Placed) :
    bindings (placed.map (·.retyped locals)) = bindings placed := by
  rw [bindings, List.flatMap_map]
  rfl

theorem settleWithin_retyped (locals : List TypeRef) (rounds : Nat)
    (pairs : List (NativeInstruction × Opcode)) :
    settleWithin rounds (pairs.map (Prod.map (·.retyped locals) id)) =
      (settleWithin rounds pairs).map (·.retyped locals) := by
  induction rounds generalizing pairs with
  | zero => exact place_retyped locals 0 pairs
  | succ rounds ih =>
    simp only [settleWithin, place_retyped, bindings_retyped, List.any_map, List.map_map]
    have hany : (Placed.strays · (bindings (place 0 pairs))) ∘ (Placed.retyped locals) =
        (Placed.strays · (bindings (place 0 pairs))) :=
      funext fun p => p.strays_retyped locals _
    have hreformed : (Placed.reformed · (bindings (place 0 pairs))) ∘ (Placed.retyped locals) =
        Prod.map (·.retyped locals) id ∘ (Placed.reformed · (bindings (place 0 pairs))) :=
      funext fun p => p.reformed_retyped locals _
    rw [hany, hreformed, ← List.map_map, ih]
    split <;> rfl

theorem settle_retyped (locals : List TypeRef) (stream : List NativeInstruction) :
    settle (stream.map (·.retyped locals)) = (settle stream).map (·.retyped locals) := by
  have hshort : (shortBranches (stream.map (·.retyped locals))).length =
      (shortBranches stream).length := by
    rw [shortBranches, List.filter_map, List.length_map]
    rfl
  have hpairs : (stream.map (·.retyped locals)).map (fun i => (i, i.opcode)) =
      (stream.map fun i => (i, i.opcode)).map (Prod.map (·.retyped locals) id) := by
    rw [List.map_map, List.map_map]
    rfl
  rw [settle, hshort, hpairs, settleWithin_retyped, settle]

theorem codeSize_retyped (locals : List TypeRef) (placed : List Placed) :
    codeSize (placed.map (·.retyped locals)) = codeSize placed := by
  rw [codeSize, List.getLast?_map, Option.map_map]
  rfl

/-- The types of locals have no part in how far a jump goes. -/
theorem WithinReach.retyped {placed : List Placed} (h : WithinReach placed)
    (locals : List TypeRef) : WithinReach (placed.map (·.retyped locals)) where
  size := by
    rw [codeSize_retyped]
    exact h.size
  displacements := by
    rw [bindings_retyped]
    refine List.forall_mem_map.2 fun p hp l hl => ?_
    rw [Placed.retyped, NativeInstruction.targets_retyped] at hl
    exact h.displacements p hp l hl

/-! ### Writing -/

section

variable {μ : Type} [Metadata μ]

theorem writeFrom_retyped (locals : List TypeRef) (bound : List (NativeLabel × Nat))
    (localCount index : Nat) (metadata : μ) (placed : List Placed) :
    writeFrom bound localCount index metadata (placed.map (·.retyped locals)) =
      writeFrom bound localCount index metadata placed := by
  induction placed generalizing index metadata with
  | nil => rfl
  | cons p rest ih =>
    simp only [List.map_cons, writeFrom, Placed.internString_retyped, Placed.operandBytes_retyped, ih]
    rfl

/-- **Encoding does not look at the types of local operands.** -/
theorem encode_retyped (g : Generator) (locals : List TypeRef) (stream : List NativeInstruction)
    (metadata : μ) :
    g.encode (stream.map (·.retyped locals)) metadata = g.encode stream metadata := by
  simp only [Generator.encode, checkFrom_retyped, checkLabelsFrom_retyped, settle_retyped,
    bindings_retyped, writeFrom_retyped, codeSize_retyped, List.map_map]
  rfl

/-- The slots that are written are declared. -/
theorem local_lt_of_writeFrom {bound : List (NativeLabel × Nat)} {localCount index : Nat}
    {metadata metadata' : μ} {placed : List Placed} {code : List UInt8}
    (h : writeFrom bound localCount index metadata placed = (.ok code, metadata')) :
    ∀ p ∈ placed, ∀ l, p.insn.operand = .local l → l.index.toNat < localCount := by
  induction placed generalizing index metadata code with
  | nil => exact nofun
  | cons p rest ih =>
    obtain ⟨operand, more, hoperand, hmore, -⟩ := writeFrom_cons_eq_ok_iff.1 h
    refine List.forall_mem_cons.2 ⟨fun l hl => ?_, ih hmore⟩
    refine Decidable.byContradiction fun hlt => ?_
    simp only [Placed.operandBytes, hl] at hoperand
    cases hform : p.form.operandClass? <;> simp [hform, hlt] at hoperand

end

end MethodWeave
