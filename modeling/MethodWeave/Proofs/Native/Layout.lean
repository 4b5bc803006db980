import MethodWeave.Proofs.Opcode.Forms
import MethodWeave.Proofs.Outcome
/-!
The layout of a stream: what the checks before it establish, where labels lie, and that settling
branch forms reaches a layout without straying branches.

Main results: `lookup_bindings`, the offset of a label is the start of the one instruction that it
marks, and `settle_settled`, the settled layout lies the stream end to end, each instruction in its
own form or its long form, and no branch in it strays.
-/

namespace MethodWeave

/-! ### Checks -/

/-- The checks of operands pass exactly when each opcode is known and suits its operand. -/
theorem checkFrom_iff {index : Nat} {stream : List NativeInstruction} :
    checkFrom index stream = .ok () ↔
      ∀ i ∈ stream, ∃ info, i.opcode.info? = some info ∧ info.suits i.operand = true := by
  have hone (index : Nat) (i : NativeInstruction) : i.check index = .ok () ↔
      ∃ info, i.opcode.info? = some info ∧ info.suits i.operand = true := by
    unfold NativeInstruction.check
    cases i.opcode.info? with
    | none => simp
    | some info => cases hs : info.suits i.operand <;> simp [hs]
  induction stream generalizing index with
  | nil => simp [checkFrom]
  | cons i rest ih =>
    simp only [checkFrom, bind_eq_ok_iff, hone, ih, List.forall_mem_cons]
    exact ⟨fun ⟨_, h⟩ => h, fun h => ⟨(), h⟩⟩

theorem bindAll_iff {index : Nat} {bound labels bound' : List NativeLabel} :
    bindAll index bound labels = .ok bound' ↔
      bound' = labels.reverse ++ bound ∧ labels.Nodup ∧ ∀ l ∈ labels, l ∉ bound := by
  induction labels generalizing bound with
  | nil => simp [bindAll, eq_comm]
  | cons l rest ih =>
    unfold bindAll
    by_cases hl : l ∈ bound
    · simp [hl]
    · simp only [hl, if_false, ih, List.reverse_cons, List.append_assoc, List.cons_append,
        List.nil_append, List.nodup_cons, List.mem_cons, not_or]
      grind

/-- The check of labels passes exactly when no label marks two places. -/
theorem checkLabelsFrom_iff {index : Nat} {bound : List NativeLabel}
    {stream : List NativeInstruction} :
    checkLabelsFrom index bound stream = .ok () ↔
      (stream.flatMap (·.labels)).Nodup ∧ ∀ l ∈ stream.flatMap (·.labels), l ∉ bound := by
  induction stream generalizing index bound with
  | nil => simp [checkLabelsFrom]
  | cons i rest ih =>
    simp only [checkLabelsFrom, bind_eq_ok_iff, bindAll_iff, ih, List.flatMap_cons,
      List.nodup_append, List.mem_append]
    grind

/-! ### Places and labels -/

/-- An instruction ends as many bytes behind its start as it takes. -/
theorem stop_of_mem_place {position : Nat} {pairs : List (NativeInstruction × Opcode)} {p : Placed}
    (hp : p ∈ place position pairs) : p.stop = p.start + p.insn.sizeAs p.form := by
  induction pairs generalizing position with
  | nil => cases hp
  | cons pair rest ih =>
    rcases List.mem_cons.1 hp with rfl | hp
    · rfl
    · exact ih hp

theorem mem_of_mem_place {position : Nat} {pairs : List (NativeInstruction × Opcode)} {p : Placed}
    (hp : p ∈ place position pairs) : (p.insn, p.form) ∈ pairs := by
  have := List.mem_map_of_mem (f := fun p : Placed => (p.insn, p.form)) hp
  rwa [map_place] at this

/-- Placing keeps instructions and their order, whatever the forms. -/
theorem map_insn_place (position : Nat) (pairs : List (NativeInstruction × Opcode)) :
    (place position pairs).map (·.insn) = pairs.map (·.1) := by
  have := congrArg (List.map Prod.fst) (map_place position pairs)
  rwa [List.map_map] at this

/-- Where a layout that begins at `position` ends. -/
def layoutEnd (position : Nat) (placed : List Placed) : Nat :=
  ((placed.getLast?).map (·.stop)).getD position

/-- The first instruction does not matter to the end, but for its bytes. -/
theorem layoutEnd_place_cons (position : Nat) (pair : NativeInstruction × Opcode)
    (rest : List (NativeInstruction × Opcode)) :
    layoutEnd position (place position (pair :: rest)) =
      layoutEnd (position + pair.1.sizeAs pair.2)
        (place (position + pair.1.sizeAs pair.2) rest) := by
  rw [place, layoutEnd, layoutEnd, List.getLast?_cons]
  cases (place (position + pair.1.sizeAs pair.2) rest).getLast? <;> rfl

/-- No instruction ends behind the layout. -/
theorem stop_le_layoutEnd (position : Nat) (pairs : List (NativeInstruction × Opcode)) :
    position ≤ layoutEnd position (place position pairs) ∧
      ∀ p ∈ place position pairs, p.stop ≤ layoutEnd position (place position pairs) := by
  induction pairs generalizing position with
  | nil => exact ⟨Nat.le_refl _, nofun⟩
  | cons pair rest ih =>
    obtain ⟨hstart, hrest⟩ := ih (position + pair.1.sizeAs pair.2)
    rw [layoutEnd_place_cons]
    exact ⟨Nat.le_of_add_right_le hstart, List.forall_mem_cons.2 ⟨hstart, hrest⟩⟩

/-- A label that has an offset marks the instruction that starts there. -/
theorem mem_of_lookup_bindings {placed : List Placed} {l : NativeLabel} {k : Nat}
    (h : (bindings placed).lookup l = some k) :
    ∃ p ∈ placed, l ∈ p.insn.labels ∧ p.start = k := by
  have hmem : (l, k) ∈ bindings placed := by
    obtain ⟨before, after, hsplit, -⟩ := List.lookup_eq_some_iff.1 h
    rw [hsplit]
    exact List.mem_append_right _ List.mem_cons_self
  obtain ⟨p, hp, hl⟩ := List.mem_flatMap.1 hmem
  obtain ⟨l', hl', heq⟩ := List.mem_map.1 hl
  cases heq
  exact ⟨p, hp, hl', rfl⟩

theorem lookup_map_const {α : Type} [DecidableEq α] (labels : List α) (k : Nat) (l : α) :
    (labels.map fun l => (l, k)).lookup l = if l ∈ labels then some k else none := by
  induction labels with
  | nil => rfl
  | cons a labels ih =>
    by_cases ha : l = a
    · simp [ha]
    · have hb : (l == a) = false := by simpa using ha
      simp only [List.map_cons, List.lookup_cons, hb, ih, List.mem_cons, ha, false_or]

/-- The offset of a label is the start of the instruction that it marks, as no label marks two. -/
theorem lookup_bindings {placed : List Placed}
    (hnodup : (placed.flatMap (·.insn.labels)).Nodup) {p : Placed} (hp : p ∈ placed)
    {l : NativeLabel} (hl : l ∈ p.insn.labels) : (bindings placed).lookup l = some p.start := by
  induction placed with
  | nil => cases hp
  | cons q rest ih =>
    rw [List.flatMap_cons, List.nodup_append] at hnodup
    obtain ⟨-, hrest, hapart⟩ := hnodup
    simp only [bindings, List.flatMap_cons, List.lookup_append, lookup_map_const]
    rcases List.mem_cons.1 hp with rfl | hp
    · rw [if_pos hl]; rfl
    · have hnot : l ∉ q.insn.labels := fun hq =>
        hapart l hq l (List.mem_flatMap.2 ⟨p, hp, hl⟩) rfl
      rw [if_neg hnot]
      exact ih hrest hp

/-! ### Settling -/

/-- Is the form one that the instruction may be written in: its own opcode, or the long form of
it? -/
def NativeInstruction.TakesForm (i : NativeInstruction) (form : Opcode) : Prop :=
  form = i.opcode ∨ i.opcode.longForm? = some form

/-- How many instructions could still be widened. -/
def shortCount (pairs : List (NativeInstruction × Opcode)) : Nat :=
  pairs.countP fun pair => pair.2.longForm?.isSome

theorem Placed.longForm?_of_strays {p : Placed} {bound : List (NativeLabel × Nat)}
    (h : p.strays bound = true) : ∃ long, p.form.longForm? = some long := by
  unfold Placed.strays at h
  split at h
  · exact Option.isSome_iff_exists.1 (Bool.and_eq_true_iff.1 h).1
  · cases h

/-- A round keeps the instructions, and each form stays one that its instruction may take. -/
theorem Placed.takesForm_reformed {p : Placed} {bound : List (NativeLabel × Nat)}
    (h : p.insn.TakesForm p.form) : p.insn.TakesForm (p.reformed bound).2 := by
  simp only [Placed.reformed]
  split
  · next hstrays =>
    obtain ⟨long, hlong⟩ := Placed.longForm?_of_strays hstrays
    rcases h with h | h
    · rw [Opcode.widened, hlong]
      exact Or.inr (h ▸ hlong)
    · -- a long form never strays
      rw [Opcode.longForm?_of_longForm? h] at hlong
      cases hlong
  · exact h

/-- A straying branch can be widened, and once it is, it cannot be widened again. -/
theorem Placed.isSome_longForm?_reformed (p : Placed) (bound : List (NativeLabel × Nat)) :
    (p.reformed bound).2.longForm?.isSome = (p.form.longForm?.isSome && !p.strays bound) := by
  simp only [Placed.reformed]
  split
  · next hstrays =>
    obtain ⟨long, hlong⟩ := Placed.longForm?_of_strays hstrays
    rw [Opcode.widened, hlong, Option.getD_some, Opcode.longForm?_of_longForm? hlong, hstrays]
    rfl
  · next hstrays => simp [hstrays]

theorem shortCount_map (placed : List Placed) :
    shortCount (placed.map fun p => (p.insn, p.form)) =
      placed.countP fun p => p.form.longForm?.isSome := by
  rw [shortCount, List.countP_map]; rfl

/-- A round in which a branch strays leaves fewer branches to widen. -/
theorem shortCount_reformed_lt {placed : List Placed} {bound : List (NativeLabel × Nat)}
    (h : placed.any (·.strays bound) = true) :
    shortCount (placed.map (·.reformed bound)) <
      placed.countP fun p => p.form.longForm?.isSome := by
  simp only [shortCount, List.countP_map, Function.comp_def, Placed.isSome_longForm?_reformed]
  induction placed with
  | nil => cases h
  | cons p rest ih =>
    have hle : (rest.countP fun p => p.form.longForm?.isSome && !p.strays bound) ≤
        rest.countP fun p => p.form.longForm?.isSome :=
      List.countP_mono_left fun p _ hp => (Bool.and_eq_true_iff.1 hp).1
    simp only [List.countP_cons]
    -- either the first branch strays and is counted no more, or one of the rest does
    by_cases hstrays : p.strays bound = true
    · obtain ⟨long, hlong⟩ := Placed.longForm?_of_strays hstrays
      simp only [hstrays, hlong, Option.isSome_some, Bool.not_true, Bool.and_false,
        Bool.false_eq_true, if_false, if_true]
      omega
    · have hrest : rest.any (·.strays bound) = true := by
        simpa [List.any_cons, hstrays] using h
      have := ih hrest
      simp only [hstrays, Bool.not_false, Bool.and_true]
      omega

/-- The loop of rounds, begun with given forms, ends with the last of so many layouts: a round in
which a branch strays is followed by another one. -/
inductive Settles : List (NativeInstruction × Opcode) → Nat → List Placed → Prop
  | done {pairs : List (NativeInstruction × Opcode)}
      (hkept : ∀ p ∈ place 0 pairs, p.strays (bindings (place 0 pairs)) = false) :
      Settles pairs 1 (place 0 pairs)
  | again {pairs : List (NativeInstruction × Opcode)} {rounds : Nat} {placed : List Placed}
      {p : Placed} (hp : p ∈ place 0 pairs) (hstrays : p.strays (bindings (place 0 pairs)) = true)
      (hrest : Settles ((place 0 pairs).map (·.reformed (bindings (place 0 pairs)))) rounds placed) :
      Settles pairs (rounds + 1) placed

/-- **The loop ends.**  As many rounds as there are branches to widen, and one more, are enough. -/
theorem settles_settleWithin {limit : Nat} {pairs : List (NativeInstruction × Opcode)}
    (hlimit : shortCount pairs ≤ limit) :
    ∃ rounds ≤ shortCount pairs + 1, Settles pairs rounds (settleWithin limit pairs) := by
  induction limit generalizing pairs with
  | zero =>
    refine ⟨1, by omega, .done fun p hp => ?_⟩
    -- no form can be widened, so none strays
    have hnone := List.countP_eq_zero.1 (Nat.le_zero.1 hlimit) _ (mem_of_mem_place hp)
    refine Bool.eq_false_iff.2 fun hstrays => ?_
    obtain ⟨long, hlong⟩ := Placed.longForm?_of_strays hstrays
    simp [hlong] at hnone
  | succ limit ih =>
    simp only [settleWithin]
    split
    · next hany =>
      -- a round that widens a branch leaves fewer to widen, so one round less is enough for it
      have hmeasure := shortCount_reformed_lt hany
      rw [← shortCount_map, map_place] at hmeasure
      obtain ⟨p, hp, hstrays⟩ := List.any_eq_true.1 hany
      have hless : shortCount ((place 0 pairs).map (·.reformed (bindings (place 0 pairs)))) ≤
          limit := by omega
      obtain ⟨rounds, hrounds, hsettles⟩ := ih hless
      exact ⟨rounds + 1, by omega, .again hp hstrays hsettles⟩
    · next hany =>
      refine ⟨1, by omega, .done fun p hp => ?_⟩
      rw [List.any_eq_true] at hany
      exact Bool.eq_false_iff.2 fun hstrays => hany ⟨p, hp, hstrays⟩

/-- What the loop ends with is a layout of the same instructions in which nothing strays. -/
theorem Settles.settled {pairs : List (NativeInstruction × Opcode)} {rounds : Nat}
    {placed : List Placed} (h : Settles pairs rounds placed)
    (hforms : ∀ pair ∈ pairs, pair.1.TakesForm pair.2) :
    ∃ settled : List (NativeInstruction × Opcode),
      placed = place 0 settled ∧
      settled.map (·.1) = pairs.map (·.1) ∧
      (∀ pair ∈ settled, pair.1.TakesForm pair.2) ∧
      ∀ p ∈ place 0 settled, p.strays (bindings (place 0 settled)) = false := by
  induction h with
  | @done pairs hkept => exact ⟨pairs, rfl, rfl, hforms, hkept⟩
  | @again pairs rounds placed p hp hstrays hrest ih =>
    have hforms' : ∀ pair ∈ (place 0 pairs).map (·.reformed (bindings (place 0 pairs))),
        pair.1.TakesForm pair.2 := by
      intro pair hpair
      obtain ⟨p, hp, rfl⟩ := List.mem_map.1 hpair
      exact Placed.takesForm_reformed (hforms _ (mem_of_mem_place hp))
    obtain ⟨settled, heq, hinsns, hsettled⟩ := ih hforms'
    refine ⟨settled, heq, hinsns.trans ?_, hsettled⟩
    rw [List.map_map]
    exact map_insn_place 0 pairs

/-- The loop of a stream begins with the opcodes that its instructions have. -/
theorem settles_settle (stream : List NativeInstruction) :
    ∃ rounds ≤ (shortBranches stream).length + 1,
      Settles (stream.map fun i => (i, i.opcode)) rounds (settle stream) := by
  have hcount : shortCount (stream.map fun i => (i, i.opcode)) = (shortBranches stream).length := by
    rw [shortCount, List.countP_map, shortBranches, List.countP_eq_length_filter]
    rfl
  obtain ⟨rounds, hrounds, hsettles⟩ := settles_settleWithin (Nat.le_of_eq hcount)
  rw [hcount] at hrounds
  exact ⟨rounds, hrounds, hsettles⟩

/-- **Settling reaches a settled layout.**  It lays the instructions of the stream end to end, each
in a form that it may take, and no short branch in it is out of reach of its target. -/
theorem settle_settled (stream : List NativeInstruction) :
    ∃ settled : List (NativeInstruction × Opcode),
      settle stream = place 0 settled ∧
      settled.map (·.1) = stream ∧
      (∀ pair ∈ settled, pair.1.TakesForm pair.2) ∧
      ∀ p ∈ place 0 settled, p.strays (bindings (place 0 settled)) = false := by
  obtain ⟨rounds, -, hsettles⟩ := settles_settle stream
  obtain ⟨settled, heq, hinsns, h⟩ := hsettles.settled (by
    intro pair hpair
    obtain ⟨i, -, rfl⟩ := List.mem_map.1 hpair
    exact Or.inl rfl)
  refine ⟨settled, heq, hinsns.trans ?_, h⟩
  rw [List.map_map]
  exact List.map_id _

/-- The settled layout keeps instructions and their order. -/
theorem map_insn_settle (stream : List NativeInstruction) :
    (settle stream).map (·.insn) = stream := by
  obtain ⟨settled, heq, hinsns, -⟩ := settle_settled stream
  rw [heq, map_insn_place, hinsns]

/-- A stream whose own forms do not stray is laid out in them. -/
theorem settle_of_not_strays {stream : List NativeInstruction}
    (h : ∀ p ∈ place 0 (stream.map fun i => (i, i.opcode)),
      p.strays (bindings (place 0 (stream.map fun i => (i, i.opcode)))) = false) :
    settle stream = place 0 (stream.map fun i => (i, i.opcode)) := by
  have hany : (place 0 (stream.map fun i => (i, i.opcode))).any
      (·.strays (bindings (place 0 (stream.map fun i => (i, i.opcode))))) = false := by
    rw [List.any_eq_false]
    intro p hp
    simp [h p hp]
  rw [settle]
  cases (shortBranches stream).length with
  | zero => rfl
  | succ rounds => simp only [settleWithin, hany, Bool.false_eq_true, if_false]

end MethodWeave
