import MethodWeave.Instruction.Region
import MethodWeave.Native.Region
/-!
Exception tables that were built from markers lie on instruction boundaries.

Main results: each clause of a table built by `clausesFrom` begins at an instruction, and ends at an
instruction or with the code (`fits_of_clausesFrom`), so none of the markers read back from such a
table is misplaced (`firstMisplaced?_of_fits`).
-/

namespace MethodWeave

section

/-- Where a region may end: at an instruction or with the code. -/
def IsBoundary (offsets : List Nat) (size k : Nat) : Prop := k ∈ offsets ∨ k = size

variable {offsets : List Nat} {size : Nat}

/-- A clause on boundaries of instructions that begin at `offsets`, in code of `size` bytes. -/
structure Clause.Fits (offsets : List Nat) (size : Nat) (c : Clause) : Prop where
  tryStart : c.tryOffset.toNat ∈ offsets
  handlerStart : c.handlerOffset.toNat ∈ offsets
  handlerStop : IsBoundary offsets size c.handlerEnd

/-! ### Building a table -/

/-- An open region whose parts so far begin and end at boundaries, none behind `now`. -/
structure OpenRegion.Fits (offsets : List Nat) (size now : Nat) (r : OpenRegion) : Prop where
  tryStart : r.tryStart ∈ offsets
  handler : ∀ kind start, r.handler? = some (kind, start) → start ∈ offsets ∧ start ≤ now
  finished : ∀ kind start stop, (kind, start, stop) ∈ r.finished →
    start ∈ offsets ∧ start ≤ stop ∧ stop ≤ size ∧ IsBoundary offsets size stop

theorem OpenRegion.Fits.mono {r : OpenRegion} {now later : Nat} (h : r.Fits offsets size now)
    (hle : now ≤ later) : r.Fits offsets size later :=
  ⟨h.tryStart, fun kind start hs => ⟨(h.handler kind start hs).1,
    Nat.le_trans (h.handler kind start hs).2 hle⟩, h.finished⟩

/-- Closing the part in progress at a boundary leaves no part in progress. -/
theorem OpenRegion.Fits.closePart {r : OpenRegion} {now position : Nat}
    (h : r.Fits offsets size now) (hnow : now ≤ position) (hsize : position ≤ size)
    (hposition : IsBoundary offsets size position) :
    (r.closePart position).Fits offsets size position where
  tryStart := h.tryStart
  handler := nofun
  finished := by
    intro kind start stop hmem
    simp only [OpenRegion.closePart] at hmem
    split at hmem
    · next kind' start' hhandler =>
      rcases List.mem_append.1 hmem with hmem | hmem
      · exact h.finished kind start stop hmem
      · obtain ⟨hstart, hle⟩ := h.handler kind' start' hhandler
        cases List.mem_singleton.1 hmem
        exact ⟨hstart, Nat.le_trans hle hnow, hsize, hposition⟩
    · exact h.finished kind start stop hmem

/-- The clauses of a region that fits are on boundaries. -/
theorem OpenRegion.Fits.clauses? {r : OpenRegion} {now : Nat} (h : r.Fits offsets size now)
    (hoffsets : ∀ k ∈ offsets, k ≤ size) (hsize : size < 0x100000000) {clauses : List Clause}
    (hc : r.clauses? = some clauses) : ∀ c ∈ clauses, c.Fits offsets size := by
  have hsmall (k : Nat) (hk : k ∈ offsets) : (UInt32.ofNat k).toNat = k :=
    UInt32.toNat_ofNat_of_lt' (Nat.lt_of_le_of_lt (hoffsets k hk) hsize)
  simp only [OpenRegion.clauses?] at hc
  split at hc
  · cases hc
  · split at hc
    · cases hc
    · cases hc
      intro c hmem
      obtain ⟨⟨kind, start, stop⟩, hfinished, rfl⟩ := List.mem_map.1 hmem
      obtain ⟨hstart, hle, hstop, hboundary⟩ := h.finished kind start stop hfinished
      have hlength : (UInt32.ofNat (stop - start)).toNat = stop - start :=
        UInt32.toNat_ofNat_of_lt' (by show _ < 2 ^ 32; omega)
      refine ⟨by rw [hsmall _ h.tryStart]; exact h.tryStart,
        by rw [hsmall _ hstart]; exact hstart, ?_⟩
      have hend : min (start + (stop - start)) 0xffffffff = stop := by omega
      simp only [Clause.handlerEnd, Clause.clampedEnd, hsmall _ hstart, hlength, hend]
      exact hboundary

/-- A scan whose open regions and clauses fit. -/
structure RegionScan.Fits (offsets : List Nat) (size now : Nat) (s : RegionScan) : Prop where
  regions : ∀ r ∈ s.regions, r.Fits offsets size now
  clauses : ∀ c ∈ s.clauses, c.Fits offsets size

/-- What a marker does to a scan: it opens a region, begins a handler of the innermost one, or ends
the innermost one. -/
theorem RegionScan.mark_cases {s s' : RegionScan} {position : Nat} {m : Marker}
    (h : s.mark position m = some s') :
    (s' = { s with regions := { tryStart := position } :: s.regions }) ∨
      ∃ region outer, s.regions = region :: outer ∧
        ((∃ kind, s' = { s with
            regions :=
              { region.closePart position with handler? := some (kind, position) } :: outer }) ∨
          ∃ cs, (region.closePart position).clauses? = some cs ∧
            s' = { regions := outer, clauses := s.clauses ++ cs }) := by
  obtain ⟨regions, clauses⟩ := s
  cases m with
  | beginTry => exact Or.inl (Option.some.inj h).symm
  | beginCatch | beginFinally | beginFault =>
    cases regions with
    | nil => cases h
    | cons region outer => exact Or.inr ⟨region, outer, rfl, Or.inl ⟨_, (Option.some.inj h).symm⟩⟩
  | endTry =>
    cases regions with
    | nil => cases h
    | cons region outer =>
      obtain ⟨cs, hcs, rfl⟩ := Option.map_eq_some_iff.1 h
      exact Or.inr ⟨region, outer, rfl, Or.inr ⟨cs, hcs, rfl⟩⟩

section

variable (hoffsets : ∀ k ∈ offsets, k ≤ size) (hsize : size < 0x100000000)
include hoffsets hsize

/-- A marker in front of an instruction keeps the scan fitting. -/
theorem RegionScan.Fits.mark {s s' : RegionScan} {now position : Nat} {m : Marker}
    (h : s.Fits offsets size now) (hnow : now ≤ position) (hposition : position ∈ offsets)
    (hm : s.mark position m = some s') : s'.Fits offsets size position := by
  have hregions : ∀ r ∈ s.regions, r.Fits offsets size position :=
    fun r hr => (h.regions r hr).mono hnow
  obtain rfl | ⟨region, outer, hr, ⟨kind, rfl⟩ | ⟨cs, hcs, rfl⟩⟩ := RegionScan.mark_cases hm
  · exact ⟨List.forall_mem_cons.2 ⟨⟨hposition, nofun, nofun⟩, hregions⟩, h.clauses⟩
  · rw [hr, List.forall_mem_cons] at hregions
    have hclosed := hregions.1.closePart (Nat.le_refl _) (hoffsets _ hposition) (Or.inl hposition)
    refine ⟨List.forall_mem_cons.2 ⟨⟨hclosed.tryStart, ?_, hclosed.finished⟩, hregions.2⟩,
      h.clauses⟩
    intro kind' start heq
    cases heq
    exact ⟨hposition, Nat.le_refl _⟩
  · rw [hr, List.forall_mem_cons] at hregions
    have hclosed := hregions.1.closePart (Nat.le_refl _) (hoffsets _ hposition) (Or.inl hposition)
    refine ⟨hregions.2, fun c hc => ?_⟩
    rcases List.mem_append.1 hc with hc | hc
    · exact h.clauses c hc
    · exact hclosed.clauses? hoffsets hsize hcs c hc

theorem RegionScan.Fits.marks {s s' : RegionScan} {now position : Nat} {markers : List Marker}
    (h : s.Fits offsets size now) (hnow : now ≤ position) (hposition : position ∈ offsets)
    (hm : markers.foldlM (fun s m => s.mark position m) s = some s') :
    s'.Fits offsets size position := by
  induction markers generalizing s now with
  | nil =>
    cases hm
    exact ⟨fun r hr => (h.regions r hr).mono hnow, h.clauses⟩
  | cons m markers ih =>
    rw [List.foldlM_cons, Option.bind_eq_bind, Option.bind_eq_some_iff] at hm
    obtain ⟨s₁, hfirst, hrest⟩ := hm
    exact ih (h.mark hoffsets hsize hnow hposition hfirst) (Nat.le_refl _) hrest

/-- Regions that are open at the end of the code end there. -/
theorem RegionScan.fits_of_finish {clauses clauses' : List Clause} {regions : List OpenRegion}
    (hclauses : ∀ c ∈ clauses, c.Fits offsets size)
    (hregions : ∀ r ∈ regions, r.Fits offsets size size)
    (h : RegionScan.finish size clauses regions = some clauses') :
    ∀ c ∈ clauses', c.Fits offsets size := by
  induction regions generalizing clauses with
  | nil => cases h; exact hclauses
  | cons region outer ih =>
    simp only [RegionScan.finish] at h
    split at h
    · cases h
    · obtain ⟨cs, hcs, hrest⟩ := Option.bind_eq_some_iff.1 h
      obtain ⟨hregion, houter⟩ := List.forall_mem_cons.1 hregions
      have hclosed := hregion.closePart (Nat.le_refl _) (Nat.le_refl _) (Or.inr rfl)
      refine ih (fun c hc => ?_) houter hrest
      rcases List.mem_append.1 hc with hc | hc
      · exact hclauses c hc
      · exact hclosed.clauses? hoffsets hsize hcs c hc

/-- **A table built from markers fits.**  Its clauses begin at instructions, and end at instructions
or with the code. -/
theorem fits_of_clausesFrom {entries : List (Nat × List Marker)} {index now : Nat} {s : RegionScan}
    {clauses : List Clause} (hs : s.Fits offsets size now) (hnow : now ≤ size)
    (hentries : ∀ entry ∈ entries, entry.1 ∈ offsets ∧ now ≤ entry.1)
    (hsorted : entries.Pairwise fun a b => a.1 ≤ b.1)
    (h : clausesFrom size index s entries = .ok clauses) : ∀ c ∈ clauses, c.Fits offsets size := by
  induction entries generalizing index now s with
  | nil =>
    simp only [clausesFrom] at h
    split at h
    · next hfinish =>
      cases h
      exact RegionScan.fits_of_finish hoffsets hsize hs.clauses
        (fun r hr => (hs.regions r hr).mono hnow) hfinish
    · cases h
  | cons entry rest ih =>
    obtain ⟨position, markers⟩ := entry
    obtain ⟨⟨hposition, hle⟩, hrest⟩ := List.forall_mem_cons.1 hentries
    obtain ⟨hfirst, hsorted⟩ := List.pairwise_cons.1 hsorted
    simp only [clausesFrom] at h
    split at h
    · next s₁ hmarks =>
      exact ih (hs.marks hoffsets hsize hle hposition hmarks) (hoffsets _ hposition)
        (fun entry hentry => ⟨(hrest entry hentry).1, hfirst entry hentry⟩) hsorted h
    · cases h

end

/-! ### Reading a table back -/

/-- A region whose parts begin at instructions and whose end is a boundary. -/
structure CodeRegion.Fits (offsets : List Nat) (size : Nat) (r : CodeRegion) : Prop where
  tryStart : r.tryStart ∈ offsets
  handlers : ∀ kind start, (kind, start) ∈ r.handlers → start ∈ offsets
  stop : IsBoundary offsets size r.stop

theorem Clause.Fits.ofClause {c : Clause} (h : c.Fits offsets size) :
    (CodeRegion.ofClause c).Fits offsets size where
  tryStart := h.tryStart
  handlers := by
    intro kind start hmem
    cases List.mem_singleton.1 hmem
    exact h.handlerStart
  stop := h.handlerStop

theorem CodeRegion.Fits.extend {r : CodeRegion} {c : Clause} (h : r.Fits offsets size)
    (hc : c.Fits offsets size) : (r.extend c).Fits offsets size where
  tryStart := h.tryStart
  handlers := by
    intro kind start hmem
    rcases List.mem_append.1 hmem with hmem | hmem
    · exact h.handlers kind start hmem
    · cases List.mem_singleton.1 hmem
      exact hc.handlerStart
  stop := hc.handlerStop

theorem CodeRegion.fits_of_groupFrom {current : CodeRegion} {clauses : List Clause}
    (hcurrent : current.Fits offsets size) (hclauses : ∀ c ∈ clauses, c.Fits offsets size) :
    ∀ r ∈ CodeRegion.groupFrom current clauses, r.Fits offsets size := by
  induction clauses generalizing current with
  | nil =>
    intro r hr
    rw [List.mem_singleton.1 hr]
    exact hcurrent
  | cons c rest ih =>
    obtain ⟨hc, hrest⟩ := List.forall_mem_cons.1 hclauses
    simp only [CodeRegion.groupFrom]
    split
    · exact ih (hcurrent.extend hc) hrest
    · exact List.forall_mem_cons.2 ⟨hcurrent, ih hc.ofClause hrest⟩

theorem CodeRegion.fits_of_group {clauses : List Clause}
    (hclauses : ∀ c ∈ clauses, c.Fits offsets size) :
    ∀ r ∈ CodeRegion.group clauses, r.Fits offsets size := by
  cases clauses with
  | nil => exact nofun
  | cons c rest =>
    obtain ⟨hc, hrest⟩ := List.forall_mem_cons.1 hclauses
    exact CodeRegion.fits_of_groupFrom hc.ofClause hrest

namespace PlacedMarker

theorem mem_insertInto {a m : PlacedMarker} {ms : List PlacedMarker} :
    m ∈ a.insertInto ms ↔ m = a ∨ m ∈ ms := by
  induction ms with
  | nil => simp [insertInto]
  | cons b rest ih =>
    simp only [insertInto]
    split
    · exact List.mem_cons
    · simp only [List.mem_cons, ih]
      exact or_left_comm

theorem mem_sort {m : PlacedMarker} {ms : List PlacedMarker} : m ∈ sort ms ↔ m ∈ ms := by
  induction ms with
  | nil => exact Iff.rfl
  | cons a rest ih =>
    show m ∈ a.insertInto (sort rest) ↔ _
    rw [mem_insertInto, ih, List.mem_cons]

/-- A marker of a fitting table stands at an instruction, or ends a region with the code. -/
theorem position_of_mem_ofClauses {clauses : List Clause}
    (hclauses : ∀ c ∈ clauses, c.Fits offsets size) {m : PlacedMarker}
    (hm : m ∈ ofClauses clauses) :
    m.position ∈ offsets ∨ m.position = size ∧ m.marker = .endTry := by
  obtain ⟨r, hr, hm⟩ := List.mem_flatMap.1 (mem_sort.1 hm)
  have hfits := CodeRegion.fits_of_group hclauses r hr
  simp only [ofRegion, List.cons_append, List.mem_cons, List.mem_append, List.mem_map,
    List.not_mem_nil, or_false] at hm
  obtain rfl | ⟨⟨kind, start⟩, hhandler, rfl⟩ | rfl := hm
  · exact hfits.stop.imp_right fun h => ⟨h, rfl⟩
  · exact Or.inl (hfits.handlers kind start hhandler)
  · exact Or.inl hfits.tryStart

/-- None of the markers of a fitting table is misplaced. -/
theorem firstMisplaced?_of_fits {clauses : List Clause} (hoffsets : ∀ k ∈ offsets, k < size)
    (hclauses : ∀ c ∈ clauses, c.Fits offsets size) :
    firstMisplaced? size offsets (ofClauses clauses) = none := by
  simp only [firstMisplaced?, Option.map_eq_none_iff, List.find?_eq_none, Bool.and_eq_true,
    Bool.not_eq_true', not_and, Bool.not_eq_false]
  intro m hm hend
  rcases position_of_mem_ofClauses hclauses hm with hmem | ⟨hsize, -⟩
  · simpa using hmem
  · -- at the end of the code there are only ends of regions
    exfalso
    refine Bool.eq_false_iff.1 hend (Bool.and_eq_true_iff.2 ⟨by simpa using hsize, ?_⟩)
    simp only [at?, List.all_map, List.all_eq_true, List.mem_filter, Function.comp_apply,
      beq_iff_eq, and_imp]
    intro m' hm' hposition
    rcases position_of_mem_ofClauses hclauses hm' with hmem' | ⟨-, hmarker⟩
    · have := hoffsets _ hmem'
      omega
    · rw [hmarker]

end PlacedMarker

end

end MethodWeave
