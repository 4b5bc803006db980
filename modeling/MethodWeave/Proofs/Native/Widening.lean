import MethodWeave.Proofs.Native.Covering
/-!
Branches are widened no further than they have to be.

A form written wider moves everything behind it away from everything in front of it, so it can bring
no label closer to a branch (`WidensTo.sizeOfFirst_le`): what strays for some forms strays for all
wider ones as long as it is short itself.  A round of settling therefore stays below every choice of
forms that reaches all targets (`WidensTo.reformed`), and so do all rounds together.

Main result: `settle_least`, settling ends after at most one round more than there are short
branches, with the least forms that reach.
-/

namespace MethodWeave

/-! ### Wider forms -/

/-- The same instructions, each in the same form or in the long form of it. -/
def WidensTo (pairs pairs' : List (NativeInstruction × Opcode)) : Prop :=
  List.Forall₂ (fun pair pair' => pair'.1 = pair.1 ∧
    (pair'.2 = pair.2 ∨ pair.2.longForm? = some pair'.2)) pairs pairs'

theorem NativeInstruction.sizeAs_le_of_longForm? (i : NativeInstruction) {form long : Opcode}
    (h : form.longForm? = some long) : i.sizeAs form ≤ i.sizeAs long := by
  obtain ⟨hshort, hlong⟩ := Opcode.operandClass?_of_longForm? h
  have hform := form.size_bounds
  have hwide := long.size_bounds
  simp only [NativeInstruction.sizeAs, hshort, hlong, Option.bind_some, OperandClass.fixedSize?]
  omega

namespace WidensTo

variable {pairs pairs' : List (NativeInstruction × Opcode)}

theorem map_fst (h : WidensTo pairs pairs') : pairs'.map (·.1) = pairs.map (·.1) := by
  induction h with
  | nil => rfl
  | cons hpair _ ih => rw [List.map_cons, List.map_cons, hpair.1, ih]

/-- What lies between two places does not shrink. -/
theorem sizeOfFirst_le (h : WidensTo pairs pairs') {i j : Nat} (hij : i ≤ j) :
    sizeOfFirst j pairs + sizeOfFirst i pairs' ≤ sizeOfFirst i pairs + sizeOfFirst j pairs' := by
  induction h generalizing i j with
  | nil => simp only [sizeOfFirst_nil, Nat.le_refl]
  | @cons pair pair' rest rest' hpair _ ih =>
    obtain ⟨insn, form⟩ := pair
    obtain ⟨insn', form'⟩ := pair'
    obtain ⟨rfl, hform⟩ := hpair
    have hsize : insn'.sizeAs form ≤ insn'.sizeAs form' := by
      rcases hform with rfl | hlong
      · exact Nat.le_refl _
      · exact insn'.sizeAs_le_of_longForm? hlong
    cases j with
    | zero =>
      obtain rfl : i = 0 := Nat.le_zero.1 hij
      exact Nat.le_refl _
    | succ j =>
      cases i with
      | zero =>
        have := ih (Nat.zero_le j)
        simp only [sizeOfFirst] at this ⊢
        omega
      | succ i =>
        have := ih (Nat.le_of_succ_le_succ hij)
        simp only [sizeOfFirst] at this ⊢
        omega

end WidensTo

/-! ### Displacements by place -/

/-- A label lies where the first instruction that it marks begins, whatever the forms are. -/
theorem lookup_bindings_place (position : Nat) (pairs : List (NativeInstruction × Opcode))
    (l : NativeLabel) :
    (bindings (place position pairs)).lookup l =
      ((pairs.map (·.1)).findIdx? fun n => decide (l ∈ n.labels)).map fun j =>
        position + sizeOfFirst j pairs := by
  induction pairs generalizing position with
  | nil => rfl
  | cons pair rest ih =>
    obtain ⟨insn, form⟩ := pair
    rw [place, bindings, List.flatMap_cons, List.lookup_append, lookup_map_const, List.map_cons,
      List.findIdx?_cons]
    by_cases hl : l ∈ insn.labels
    · rw [if_pos hl, if_pos (decide_eq_true hl)]
      rfl
    · rw [if_neg hl, if_neg (by simpa using hl), Option.none_or]
      refine (ih _).trans ?_
      rw [Option.map_map]
      congr 1
      funext j
      show position + insn.sizeAs form + sizeOfFirst j rest =
        position + (insn.sizeAs form + sizeOfFirst j rest)
      exact Nat.add_assoc _ _ _

/-- How far the label is from an instruction, by their places. -/
theorem displacement?_place {pairs : List (NativeInstruction × Opcode)} {i : Nat} {p : Placed}
    (hp : (place 0 pairs)[i]? = some p) (l : NativeLabel) :
    p.displacement? (bindings (place 0 pairs)) l =
      ((pairs.map (·.1)).findIdx? fun n => decide (l ∈ n.labels)).map fun j =>
        (sizeOfFirst j pairs : Int) - sizeOfFirst (i + 1) pairs := by
  obtain ⟨-, -, hstop⟩ := getElem?_place hp
  rw [Nat.zero_add] at hstop
  rw [Placed.displacement?, lookup_bindings_place, hstop]
  cases (pairs.map (·.1)).findIdx? fun n => decide (l ∈ n.labels) with
  | none => rfl
  | some j =>
    show some (((0 + sizeOfFirst j pairs : Nat) : Int) - _) = _
    rw [Nat.zero_add]
    rfl

theorem Placed.inShortRange_iff {d : Int} : inShortRange d = true ↔ -128 ≤ d ∧ d ≤ 127 := by
  rw [inShortRange, Bool.and_eq_true, decide_eq_true_eq, decide_eq_true_eq]

/-- What makes a branch stray. -/
theorem Placed.strays_iff {p : Placed} {bound : List (NativeLabel × Nat)} :
    p.strays bound = true ↔ ∃ l d, p.insn.operand = .label l ∧
      p.form.operandClass? = some .shortBranch ∧ p.displacement? bound l = some d ∧
      ¬ (-128 ≤ d ∧ d ≤ 127) := by
  simp only [Opcode.operandClass?_eq_shortBranch_iff, ← Option.isSome_iff_exists,
    ← Placed.inShortRange_iff, Bool.not_eq_true]
  unfold Placed.strays
  cases p.insn.operand with
  | label l =>
    constructor
    · intro h
      obtain ⟨hshort, hfar⟩ := Bool.and_eq_true_iff.1 h
      cases hd : p.displacement? bound l with
      | none => simp [hd] at hfar
      | some d => exact ⟨l, d, rfl, hshort, hd, by simpa [hd] using hfar⟩
    · rintro ⟨_, d, ⟨⟩, hshort, hd, hfar⟩
      simp only [hshort, hd, hfar, Option.map_some, Option.getD_some, Bool.not_false, Bool.and_true]
  | _ => simp

namespace WidensTo

variable {pairs pairs' : List (NativeInstruction × Opcode)}

/-- A branch that strays also strays for wider forms, unless it is wider itself. -/
theorem strays (h : WidensTo pairs pairs') {i : Nat} {p p' : Placed}
    (hp : (place 0 pairs)[i]? = some p) (hp' : (place 0 pairs')[i]? = some p')
    (hinsn : p'.insn = p.insn) (hform : p'.form = p.form)
    (hstrays : p.strays (bindings (place 0 pairs)) = true) :
    p'.strays (bindings (place 0 pairs')) = true := by
  obtain ⟨l, d, hl, hshort, hd, hfar⟩ := Placed.strays_iff.1 hstrays
  rw [displacement?_place hp] at hd
  obtain ⟨j, hj, rfl⟩ := Option.map_eq_some_iff.1 hd
  refine Placed.strays_iff.2 ⟨l, (sizeOfFirst j pairs' : Int) - sizeOfFirst (i + 1) pairs',
    by rw [hinsn, hl], by rw [hform, hshort], ?_, ?_⟩
  · rw [displacement?_place hp', h.map_fst, hj]
    rfl
  · -- a label behind the branch is no closer to it, and neither is one in front of it
    rcases Nat.le_total j (i + 1) with hle | hle
    · have hwider := h.sizeOfFirst_le hle
      have hfront := sizeOfFirst_mono pairs hle
      simp only at hfront hfar
      omega
    · have hwider := h.sizeOfFirst_le hle
      have hbehind := sizeOfFirst_mono pairs hle
      simp only at hbehind hfar
      omega

/-- A round of settling stays below all wider forms for which nothing strays. -/
theorem reformed (h : WidensTo pairs pairs')
    (hkept : ∀ p ∈ place 0 pairs', p.strays (bindings (place 0 pairs')) = false) :
    WidensTo ((place 0 pairs).map (·.reformed (bindings (place 0 pairs)))) pairs' := by
  rw [WidensTo, List.forall₂_map_left_iff, ← map_place 0 pairs', List.forall₂_map_right_iff]
  apply forall₂_of_getElem?
  · rw [length_place, length_place]
    exact List.Forall₂.length_eq h
  · intro i p p' hp hp'
    obtain ⟨hpair, -, -⟩ := getElem?_place hp
    obtain ⟨hpair', -, -⟩ := getElem?_place hp'
    obtain ⟨_, hfound, hinsn, hform⟩ := exists_getElem?_left h hpair
    cases hpair'.symm.trans hfound
    refine ⟨hinsn, ?_⟩
    simp only [Placed.reformed]
    split
    · next hstrays =>
      rcases hform with hsame | hlong
      · -- then it strays for the wider forms as well
        have hstrays' := h.strays hp hp' hinsn hsame hstrays
        rw [hkept p' (List.mem_of_getElem? hp')] at hstrays'
        cases hstrays'
      · rw [Opcode.widened, hlong]
        exact Or.inl rfl
    · exact hform

end WidensTo

/-! ### The least forms -/

/-- No round of the loop goes beyond wider forms for which nothing strays. -/
theorem Settles.widensTo {pairs pairs' : List (NativeInstruction × Opcode)} {rounds : Nat}
    {placed : List Placed} (h : Settles pairs rounds placed) (hwider : WidensTo pairs pairs')
    (hkept : ∀ p ∈ place 0 pairs', p.strays (bindings (place 0 pairs')) = false) :
    WidensTo (placed.map fun p => (p.insn, p.form)) pairs' := by
  induction h with
  | done _ =>
    rw [map_place]
    exact hwider
  | again _ _ _ ih => exact ih (hwider.reformed hkept)

/-- A choice of forms for the branches of a stream: each instruction has its own opcode or the long
form of it, and no branch of 8 bits is too far from the label that it goes to, if that marks
anything. -/
structure Reaching (stream : List NativeInstruction) (pairs : List (NativeInstruction × Opcode)) :
    Prop where
  insns : pairs.map (·.1) = stream
  forms : ∀ pair ∈ pairs, pair.1.TakesForm pair.2
  reach : ∀ p ∈ place 0 pairs, ∀ l d, p.insn.operand = .label l →
    p.form.operandClass? = some .shortBranch →
    p.displacement? (bindings (place 0 pairs)) l = some d → -128 ≤ d ∧ d ≤ 127

theorem reach_iff {placed : List Placed} {bound : List (NativeLabel × Nat)} :
    (∀ p ∈ placed, p.strays bound = false) ↔
      ∀ p ∈ placed, ∀ l d, p.insn.operand = .label l →
        p.form.operandClass? = some .shortBranch → p.displacement? bound l = some d →
          -128 ≤ d ∧ d ≤ 127 := by
  refine forall₂_congr fun p _ => ?_
  rw [Bool.eq_false_iff, ne_eq, Placed.strays_iff]
  constructor
  · intro h l d hl hshort hd
    by_contra hfar
    exact h ⟨l, d, hl, hshort, hd, hfar⟩
  · rintro h ⟨l, d, hl, hshort, hd, hfar⟩
    exact hfar (h l d hl hshort hd)

theorem widensTo_of_takesForm {stream : List NativeInstruction}
    {pairs : List (NativeInstruction × Opcode)} (hinsns : pairs.map (·.1) = stream)
    (hforms : ∀ pair ∈ pairs, pair.1.TakesForm pair.2) :
    WidensTo (stream.map fun i => (i, i.opcode)) pairs := by
  rw [← hinsns, List.map_map, WidensTo, List.forall₂_map_left_iff, List.forall₂_same]
  exact fun pair hpair => ⟨rfl, hforms pair hpair⟩

/-- **Settling widens as little as it can, and ends.**  Whatever the stream, the loop ends after at
most one round more than the stream has short branches.  The forms it ends with reach, and every
branch that it has widened is long in every choice of forms that reaches. -/
theorem settle_least (stream : List NativeInstruction) :
    (∃ rounds ≤ (shortBranches stream).length + 1,
      Settles (stream.map fun i => (i, i.opcode)) rounds (settle stream)) ∧
    ∃ settled, settle stream = place 0 settled ∧ Reaching stream settled ∧
      ∀ pairs, Reaching stream pairs →
        List.Forall₂ (fun pair pair' => pair.1.opcode.longForm? = some pair.2 → pair'.2 = pair.2)
          settled pairs := by
  obtain ⟨rounds, hrounds, hsettles⟩ := settles_settle stream
  obtain ⟨settled, hsettle, hinsns, hforms, hkept⟩ := settle_settled stream
  refine ⟨⟨rounds, hrounds, hsettles⟩, settled, hsettle, ⟨hinsns, hforms, reach_iff.1 hkept⟩, ?_⟩
  intro pairs hpairs
  have hwider := hsettles.widensTo (widensTo_of_takesForm hpairs.insns hpairs.forms)
    (reach_iff.2 hpairs.reach)
  rw [hsettle, map_place] at hwider
  apply hwider.imp
  intro pair pair' hpair hlong
  rcases hpair.2 with hsame | hlonger
  · exact hsame
  · -- a long form has no longer one
    rw [Opcode.longForm?_of_longForm? hlong] at hlonger
    cases hlonger

end MethodWeave
