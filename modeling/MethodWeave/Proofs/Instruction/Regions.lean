import MethodWeave.Proofs.Instruction.Reencoding
import MethodWeave.Proofs.Region.Placing
/-!
Exception tables of decoded bodies.

What was read from a body is encoded to the same code again, whatever its exception table; the new
table is built from the markers of the old one (`reencode_of_coherent`).  Main result: it has the
clauses of the old one, up to order, if and only if the old one is well nested
(`reencode_perm_iff`).
-/

namespace MethodWeave

/-- **What becomes of an exception table.**  Encoding what was read from a body gives its code and
locals back; the clauses it gives are those of the body, up to order, if and only if the table of
the body is well nested, and then encoding succeeds. -/
theorem reencode_perm_iff {tables : MetadataTables} (htables : tables.Reachable) {body : Body}
    (hsize : body.code.length < 0xffffffff) {supply : LabelSupply} {instructions : List Instruction}
    {labels : PositionLabels} (hread : body.decode tables supply = (.ok instructions, labels)) :
    ∃ stream g, Instruction.lowerWith (.withLocals body.locals) instructions = (.ok stream, g) ∧
      (∀ again tables', g.encode stream tables = (.ok again, tables') →
        again.code = body.code ∧ again.locals = body.locals ∧
          (again.clauses.Perm body.clauses ↔ WellNested body.clauses)) ∧
      (WellNested body.clauses → ∃ again, g.encode stream tables = (.ok again, tables)) := by
  obtain ⟨ss, stream, g, hss, hlower, hiff⟩ := reencode_of_coherent htables.coherent hread
  obtain ⟨ss', -, hss', -, -, hmisplaced, -⟩ := Body.decode_eq_ok_iff.1 hread
  obtain rfl := hss.unique hss'
  have hoffsets : (ss.map (·.offset)).Pairwise (· < ·) := List.pairwise_map.2 hss.pairwise_offset
  have hbounds : ∀ offset ∈ ss.map (·.offset), offset < body.code.length := by
    intro offset hoffset
    obtain ⟨s, hs, rfl⟩ := List.mem_map.1 hoffset
    have := (hss.offset_bounds s hs).2
    omega
  refine ⟨stream, g, hlower, fun again tables' hencode => ?_, fun hnested => ?_⟩
  · obtain ⟨hcode, hlocals, -, hclauses⟩ := (hiff again tables').1 hencode
    exact ⟨hcode, hlocals, perm_iff_wellNested hoffsets hbounds hmisplaced hsize hclauses⟩
  · obtain ⟨clauses, hclauses⟩ := hnested.exists_clausesFrom hoffsets hbounds hmisplaced hsize 0
    exact ⟨{ body with clauses := clauses }, (hiff _ tables).2 ⟨rfl, rfl, rfl, hclauses⟩⟩

/-- A try block in the `try` block of another region; both are followed by a handler. -/
def nestedBody : Body where
  code := [0x00, 0x00, 0xdc, 0x00, 0xdc, 0x2a]
  clauses := [⟨.finally, 0, 4, 4, 1⟩, ⟨.fault, 0, 2, 2, 1⟩]

theorem wellNested_nestedBody : WellNested nestedBody.clauses where
  tight := by
    have hgroup : CodeRegion.group nestedBody.clauses =
        [⟨0, 4, [(.finally, 4)], 5⟩, ⟨0, 2, [(.fault, 2)], 3⟩] := rfl
    rw [hgroup]
    simp only [List.forall_mem_cons, List.not_mem_nil, false_implies, implies_true, and_true]
    exact ⟨⟨rfl, by decide, List.pairwise_singleton _ _, by simp⟩,
      ⟨rfl, by decide, List.pairwise_singleton _ _, by simp⟩⟩
  compatible := List.pairwise_pair.2 (Or.inr (Or.inr ⟨by decide, by decide, by
    intro h hh
    rw [List.mem_singleton.1 hh]
    exact Or.inr (by decide)⟩))

/-- The outer region stands first in this table, and comes last in the one that is built. -/
theorem reencode_perm_nestedBody :
    ∃ instructions labels stream g again,
      nestedBody.decode ({} : MetadataTables) {} = (.ok instructions, labels) ∧
        Instruction.lowerWith (.withLocals []) instructions = (.ok stream, g) ∧
          g.encode stream ({} : MetadataTables) = (.ok again, {}) ∧
            again.clauses.Perm nestedBody.clauses := by
  obtain ⟨instructions, labels, hread⟩ : ∃ instructions labels,
      nestedBody.decode ({} : MetadataTables) {} = (.ok instructions, labels) := ⟨_, _, rfl⟩
  obtain ⟨stream, g, hlower, hclauses, hencode⟩ :=
    reencode_perm_iff .empty (by decide) hread
  obtain ⟨again, hagain⟩ := hencode wellNested_nestedBody
  exact ⟨instructions, labels, stream, g, again, hread, hlower, hagain,
    (hclauses again _ hagain).2.2.2 wellNested_nestedBody⟩

/-- A handler that does not begin where its try block ends. -/
def gappedBody : Body where
  code := [0x00, 0x00, 0xdc, 0x2a]
  clauses := [⟨.finally, 0, 1, 2, 1⟩]

/-- The gap is gone when the body is encoded again: the try block has become longer. -/
theorem reencode_gappedBody :
    ∃ instructions labels stream g again,
      gappedBody.decode ({} : MetadataTables) {} = (.ok instructions, labels) ∧
        Instruction.lowerWith (.withLocals []) instructions = (.ok stream, g) ∧
          g.encode stream ({} : MetadataTables) = (.ok again, {}) ∧
            again.clauses = [⟨.finally, 0, 2, 2, 1⟩] ∧ ¬ again.clauses.Perm gappedBody.clauses := by
  refine ⟨_, _, _, _, _, rfl, rfl, rfl, rfl, fun hperm => ?_⟩
  have hsame := List.singleton_perm_singleton.1 hperm
  exact absurd (congrArg Clause.tryLength hsame) (by decide)

end MethodWeave
