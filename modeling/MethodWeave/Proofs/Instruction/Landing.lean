import MethodWeave.Proofs.Instruction.ReadBack
/-!
Where the jumps of a list of instructions land that was read from a body.

Labels are handed out while the code is scanned, before it is known what stands at a target; each
one belongs to a position, and is attached to the instruction there when all of them are known.

Main result: `jumpsLand_of_decode`, in a list that was read every jump goes to the instruction at
its target, and labels are there for these jumps only.
-/

namespace MethodWeave

/-- An operand of the list has the label `l` for the position `t` that the code has in its place. -/
def StandsAt (ss : List Scanned) (out : List Instruction) (t : Int) (l : Label) : Prop :=
  ∃ (index entry : Nat) (s : Scanned) (i : Instruction) (p : Payload Label),
    ss[index]? = some s ∧ out[index]? = some i ∧ i.operand.payload? = some p ∧
      s.payload.targets[entry]? = some t ∧ p.targets[entry]? = some l

/-- The label marks the instruction at a position, and no other one. -/
def MarksAt (ss : List Scanned) (out : List Instruction) (t : Int) (l : Label) : Prop :=
  ∃ (index : Nat) (s : Scanned), ss[index]? = some s ∧ t = s.offset ∧ MarksOnly out l index

/-- The jumps of a list of instructions land where the code that it was read from has them land. -/
structure JumpsLand (ss : List Scanned) (out : List Instruction) : Prop where
  /-- Instructions stand at the offsets of the code. -/
  offsets : out.map (·.offset?) = ss.map fun s => some s.offset
  /-- A jump has a label that marks the instruction at its target. -/
  operands : List.Forall₂ (fun s i => ∃ p, i.operand.payload? = some p ∧
    Payload.Related (MarksAt ss out) s.payload p) ss out
  /-- There is one label for one target. -/
  labels : ∀ t l t' l', StandsAt ss out t l → StandsAt ss out t' l' → (l = l' ↔ t = t')
  /-- A label that marks an instruction is the label of a jump. -/
  mentioned : ∀ i ∈ out, ∀ l ∈ i.labels, ∃ t, StandsAt ss out t l

/-- Operands that are read have the labels of their targets. -/
theorem named_of_standsAt {clauses : List Clause} {st : PositionLabels} {ss : List Scanned}
    {out : List Instruction} (hread : List.Forall₂ (Instruction.ReadAs clauses st) ss out) {t : Int}
    {l : Label} (h : StandsAt ss out t l) : st.Named t l := by
  obtain ⟨index, entry, s, i, p, hs, hi, hp, ht, hl⟩ := h
  obtain ⟨i', hi', hreadAs⟩ := exists_getElem?_left hread hs
  cases hi.symm.trans hi'
  obtain ⟨q, hq, hnamed⟩ := hreadAs.operand
  cases hp.symm.trans hq
  obtain ⟨l', hl', htl'⟩ := exists_getElem?_left hnamed.targets ht
  cases hl.symm.trans hl'
  exact htl'

/-- Every target of the code stands in an operand. -/
theorem exists_standsAt {clauses : List Clause} {st : PositionLabels} {ss : List Scanned}
    {out : List Instruction} (hread : List.Forall₂ (Instruction.ReadAs clauses st) ss out)
    {s : Scanned} (hs : s ∈ ss) {t : Int} (ht : t ∈ s.payload.targets) :
    ∃ l, StandsAt ss out t l := by
  obtain ⟨index, hindex⟩ := List.mem_iff_getElem?.1 hs
  obtain ⟨entry, hentry⟩ := List.mem_iff_getElem?.1 ht
  obtain ⟨i, hi, hreadAs⟩ := exists_getElem?_left hread hindex
  obtain ⟨p, hp, hnamed⟩ := hreadAs.operand
  obtain ⟨l, hl, -⟩ := exists_getElem?_left hnamed.targets hentry
  exact ⟨l, index, entry, s, i, p, hindex, hi, hp, hentry, hl⟩

section

variable {μ : Type} [Metadata μ] {metadata : μ} {body : Body} {supply : LabelSupply}
  {out : List Instruction} {st : PositionLabels}

/-- **Jumps land.**  What is read from a body has its instructions where the code spells them, and
every jump goes to the instruction at its target. -/
theorem jumpsLand_of_decode (h : body.decode metadata supply = (.ok out, st)) :
    ∃ ss, Spelling metadata body.locals 0 ss body.code ∧
      (ss.Pairwise fun a b => a.offset < b.offset) ∧ JumpsLand ss out := by
  obtain ⟨ss, hss, hsound, hattached, hread⟩ := readAs_of_decode h
  have hoffsets := hss.pairwise_offset
  refine ⟨ss, hss, hoffsets, map_offset?_of_decode h hss, ?_, ?_, ?_⟩
  · apply hread.imp
    intro s i hi
    obtain ⟨p, hp, hnamed⟩ := hi.operand
    refine ⟨p, hp, hnamed.imp ?_⟩
    intro t l htl
    -- the position of the label is that of an instruction
    obtain ⟨s', hs', hoffset⟩ := List.mem_map.1 (hattached _ _ htl.2.2)
    obtain ⟨index, hindex⟩ := List.mem_iff_getElem?.1 hs'
    have heq : t = s'.offset := by
      have hlow := htl.1
      omega
    exact ⟨index, s', hindex, heq, marksOnly_of_named hsound hread hoffsets hindex (heq ▸ htl)⟩
  · intro t l t' l' hstands hstands'
    obtain ⟨hlow, -, hl⟩ := named_of_standsAt hread hstands
    obtain ⟨hlow', -, hl'⟩ := named_of_standsAt hread hstands'
    constructor
    · rintro rfl
      have := hsound.injective hl hl'
      omega
    · rintro rfl
      exact Option.some.inj (hl.symm.trans hl')
  · intro i hi l hl
    obtain ⟨s, -, hreadAs⟩ := exists_of_mem_right hread hi
    rw [hreadAs.labels, Option.mem_toList] at hl
    obtain ⟨s', hs', t, ht, hoffset⟩ := exists_target_of_decode h hss hl
    obtain ⟨l', hstands⟩ := exists_standsAt hread hs' ht
    obtain ⟨-, -, hl'⟩ := named_of_standsAt hread hstands
    rw [hoffset] at hl'
    cases hl.symm.trans hl'
    exact ⟨t, hstands⟩

end

end MethodWeave
