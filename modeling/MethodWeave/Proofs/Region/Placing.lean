import MethodWeave.Proofs.Region.Tables
import MethodWeave.Proofs.Native.Regions
/-!
Markers in front of instructions.

Main results: building a table from the markers in front of instructions is scanning these markers
and then the ends of the regions that are open at the end of the code (`clausesFrom_eq_ok_iff`), and
the markers of a table, put in front of the instructions at their positions, are all of them but the
ends at the end of the code (`map_event_eq`).
-/

namespace MethodWeave

/-- Markers in front of instructions, one after the other. -/
def markerEvents (entries : List (Nat × List Marker)) : List (Nat × Marker) :=
  entries.flatMap fun entry => entry.2.map (entry.1, ·)

/-- As many regions end at `stop` as are open behind `events`. -/
def openEnds (stop : Nat) (events : List (Nat × Marker)) : List (Nat × Marker) :=
  List.replicate (beginnings events - endings events) (stop, .endTry)

/-! ### Building a table -/

namespace RegionScan

/-- Every open region but one whose try block is in progress has a handler in progress. -/
def Started (s : RegionScan) : Prop := ∀ r ∈ s.regions, r.handler? = none → r.finished = []

theorem Started.mark {s s' : RegionScan} {position : Nat} {m : Marker} (h : s.Started)
    (hm : s.mark position m = some s') : s'.Started := by
  obtain rfl | ⟨region, outer, hregions, ⟨kind, rfl⟩ | ⟨cs, -, rfl⟩⟩ := mark_cases hm
  · exact List.forall_mem_cons.2 ⟨fun _ => rfl, h⟩
  · exact List.forall_mem_cons.2 ⟨nofun, fun r hr => h r (hregions ▸ List.mem_cons_of_mem _ hr)⟩
  · exact fun r hr => h r (hregions ▸ List.mem_cons_of_mem _ hr)

theorem Started.through {s s' : RegionScan} {events : List (Nat × Marker)} (h : s.Started)
    (hevents : s.through events = some s') : s'.Started := by
  induction events generalizing s with
  | nil => cases hevents; exact h
  | cons e events ih =>
    obtain ⟨s₁, hfirst, hrest⟩ := through_cons_eq_some.1 hevents
    exact ih (h.mark hfirst) hrest

/-- At the end of the code all open regions end. -/
theorem finish_eq_some_iff {stop : Nat} {s : RegionScan} (hs : s.Started) {clauses : List Clause} :
    finish stop s.clauses s.regions = some clauses ↔
      s.through (List.replicate s.regions.length (stop, .endTry)) = some ⟨[], clauses⟩ := by
  obtain ⟨regions, before⟩ := s
  induction regions generalizing before with
  | nil => simp [finish]
  | cons region outer ih =>
    obtain ⟨hregion, houter⟩ := List.forall_mem_cons.1 hs
    have hmark : mark ⟨region :: outer, before⟩ stop .endTry =
        (region.closePart stop).clauses?.map fun cs => ⟨outer, before ++ cs⟩ := rfl
    simp only [List.length_cons, List.replicate_succ, through_cons, hmark, finish]
    cases hhandler : region.handler? with
    | none =>
      have hnone : (region.closePart stop).clauses? = none := by
        simp [OpenRegion.closePart, OpenRegion.clauses?, hhandler, hregion hhandler]
      simp [hnone]
    | some handler =>
      cases (region.closePart stop).clauses? with
      | none => simp
      | some cs => exact ih (before ++ cs) houter

end RegionScan

open RegionScan

theorem clausesFrom_eq_ok_iff_finish {stop index : Nat} {s : RegionScan}
    {entries : List (Nat × List Marker)} {clauses : List Clause} :
    clausesFrom stop index s entries = .ok clauses ↔
      ∃ s', s.through (markerEvents entries) = some s' ∧
        finish stop s'.clauses s'.regions = some clauses := by
  induction entries generalizing index s with
  | nil =>
    simp only [clausesFrom, markerEvents, List.flatMap_nil, through_nil, Option.some.injEq,
      exists_eq_left']
    cases finish stop s.clauses s.regions <;> simp
  | cons entry rest ih =>
    obtain ⟨position, markers⟩ := entry
    have hmarks : (markers.foldlM (fun s m => s.mark position m) s) =
        s.through (markers.map (position, ·)) := by
      rw [RegionScan.through, List.foldlM_map]
    simp only [clausesFrom, hmarks, markerEvents, List.flatMap_cons, through_append]
    cases s.through (markers.map (position, ·)) with
    | none => simp
    | some s₁ => exact ih

/-- **Building a table is scanning the markers and the ends of what is open behind them.** -/
theorem clausesFrom_eq_ok_iff {stop index : Nat} {entries : List (Nat × List Marker)}
    {clauses : List Clause} : clausesFrom stop index {} entries = .ok clauses ↔
      RegionScan.through {} (markerEvents entries ++ openEnds stop (markerEvents entries)) =
        some ⟨[], clauses⟩ := by
  rw [clausesFrom_eq_ok_iff_finish, through_append, Option.bind_eq_some_iff]
  refine exists_congr fun s => and_congr_right fun hs => ?_
  have hstarted : s.Started := Started.through (s := {}) nofun hs
  have hopen := length_regions_of_through hs
  rw [finish_eq_some_iff hstarted, openEnds]
  simp only [List.length_nil, Nat.zero_add] at hopen
  rw [← hopen, Nat.add_sub_cancel]

/-! ### Reading a table back -/

open PlacedMarker CodeRegion

theorem at?_eq (position : Nat) (ms : List PlacedMarker) :
    at? position ms = ((ms.map event).filter (·.1 == position)).map (·.2) := by
  rw [at?, List.filter_map, List.map_map]
  rfl

/-- Among sorted offsets, the smallest one comes first. -/
theorem filter_append_filter {position : Nat} {events : List (Nat × Marker)}
    (hsorted : events.Pairwise fun a b => a.1 ≤ b.1) (hle : ∀ e ∈ events, position ≤ e.1) :
    events.filter (·.1 == position) ++ events.filter (·.1 != position) = events := by
  induction events with
  | nil => rfl
  | cons e events ih =>
    obtain ⟨hfirst, hsorted⟩ := List.pairwise_cons.1 hsorted
    obtain ⟨he, hle⟩ := List.forall_mem_cons.1 hle
    by_cases heq : e.1 = position
    · rw [List.filter_cons_of_pos (by simpa using heq), List.filter_cons_of_neg (by simpa using heq),
        List.cons_append, ih hsorted hle]
    · -- behind a larger offset there are only larger ones
      have hlarger : ∀ e' ∈ e :: events, e'.1 ≠ position := by
        refine List.forall_mem_cons.2 ⟨heq, fun e' he' => ?_⟩
        have := hfirst e' he'
        omega
      rw [List.filter_eq_nil_iff.2 fun e' he' => by simpa using hlarger e' he', List.nil_append,
        List.filter_eq_self.2 fun e' he' => by simpa using hlarger e' he']

/-- Markers at sorted offsets are those at the first offset, those at the second, and so on. -/
theorem flatMap_filter {positions : List Nat} {events : List (Nat × Marker)}
    (hpositions : positions.Pairwise (· < ·)) (hsorted : events.Pairwise fun a b => a.1 ≤ b.1)
    (hmem : ∀ e ∈ events, e.1 ∈ positions) :
    positions.flatMap (fun position => events.filter (·.1 == position)) = events := by
  induction positions generalizing events with
  | nil =>
    cases events with
    | nil => rfl
    | cons e events => exact absurd (hmem e List.mem_cons_self) List.not_mem_nil
  | cons position positions ih =>
    obtain ⟨hfirst, hpositions⟩ := List.pairwise_cons.1 hpositions
    have hle : ∀ e ∈ events, position ≤ e.1 := fun e he =>
      (List.mem_cons.1 (hmem e he)).elim (fun h => Nat.le_of_eq h.symm)
        fun h => Nat.le_of_lt (hfirst _ h)
    -- what is not at the first position is told apart by the positions behind it
    have hrest : positions.flatMap
        (fun p => (events.filter (·.1 != position)).filter (·.1 == p)) =
          events.filter (·.1 != position) := by
      refine ih hpositions (hsorted.sublist List.filter_sublist) fun e he => ?_
      obtain ⟨he, hne⟩ := List.mem_filter.1 he
      exact (List.mem_cons.1 (hmem e he)).resolve_left (by simpa using hne)
    have hsame : positions.flatMap (fun p => (events.filter (·.1 != position)).filter (·.1 == p)) =
        positions.flatMap fun p => events.filter (·.1 == p) := by
      refine congrArg List.flatten (List.map_congr_left fun p hp => ?_)
      rw [List.filter_filter]
      refine List.filter_congr fun e _ => ?_
      have hlt := hfirst p hp
      by_cases h : e.1 = p <;> simp [h]
      omega
    rw [List.flatMap_cons, ← hsame, hrest, filter_append_filter hsorted hle]

/-- A marker that is not misplaced stands at an instruction, or ends a region with the code. -/
theorem position_of_firstMisplaced? {size : Nat} {offsets : List Nat} {ms : List PlacedMarker}
    (h : firstMisplaced? size offsets ms = none) {m : PlacedMarker} (hm : m ∈ ms) :
    m.position ∈ offsets ∨ m.position = size ∧ m.marker = .endTry := by
  simp only [firstMisplaced?, Option.map_eq_none_iff, List.find?_eq_none] at h
  have hplaced := h m hm
  by_cases hmem : m.position ∈ offsets
  · exact Or.inl hmem
  · right
    simp only [List.contains_eq_mem, hmem, decide_false, Bool.not_false, Bool.and_true,
      Bool.not_eq_true', Bool.not_eq_false, Bool.and_eq_true, beq_iff_eq] at hplaced
    obtain ⟨hsize, hall⟩ := hplaced
    refine ⟨hsize, ?_⟩
    have hend := List.all_eq_true.1 hall m.marker
      (List.mem_map_of_mem (List.mem_filter.2 ⟨hm, beq_self_eq_true _⟩))
    revert hend
    cases m.marker <;> simp

section

variable {size : Nat} {offsets : List Nat} (hoffsets : offsets.Pairwise (· < ·))
  (hsize : ∀ offset ∈ offsets, offset < size)
include hoffsets hsize

/-- Sorted markers stand in front of the instructions at their positions, but for the ends at the
end of the code. -/
theorem map_event_eq {ms : List PlacedMarker}
    (hsorted : ms.Pairwise fun a b => a.position ≤ b.position)
    (hplaced : firstMisplaced? size offsets ms = none) :
    ∃ count, ms.map event = markerEvents (offsets.map fun offset => (offset, at? offset ms)) ++
      List.replicate count (size, .endTry) := by
  -- each marker is at the offset of an instruction or at the end, where it ends a region
  have hpositions : (offsets ++ [size]).Pairwise (· < ·) :=
    List.pairwise_append.2 ⟨hoffsets, List.pairwise_singleton _ _,
      fun a ha b hb => List.mem_singleton.1 hb ▸ hsize a ha⟩
  have hmem : ∀ e ∈ ms.map event, e.1 ∈ offsets ++ [size] := fun e he => by
    obtain ⟨m, hm, rfl⟩ := List.mem_map.1 he
    exact List.mem_append.2 ((position_of_firstMisplaced? hplaced hm).imp_right
      fun h => List.mem_singleton.2 h.1)
  refine ⟨((ms.map event).filter (·.1 == size)).length, ?_⟩
  have hat : (offsets.flatMap fun offset => (ms.map event).filter (·.1 == offset)) =
      markerEvents (offsets.map fun offset => (offset, at? offset ms)) := by
    rw [markerEvents, List.flatMap_map]
    refine congrArg List.flatten (List.map_congr_left fun offset _ => ?_)
    rw [at?_eq, List.map_map]
    refine (List.map_id _).symm.trans (List.map_congr_left fun e he => ?_)
    have := (List.mem_filter.1 he).2
    exact Prod.ext (by simpa using this) rfl
  have hend : (ms.map event).filter (·.1 == size) =
      List.replicate ((ms.map event).filter (·.1 == size)).length (size, .endTry) := by
    refine List.eq_replicate_iff.2 ⟨rfl, fun e he => ?_⟩
    obtain ⟨he, hposition⟩ := List.mem_filter.1 he
    obtain ⟨m, hm, rfl⟩ := List.mem_map.1 he
    have hposition : m.position = size := by simpa [event] using hposition
    rcases position_of_firstMisplaced? hplaced hm with hin | ⟨-, hmarker⟩
    · have := hsize _ hin
      omega
    · exact Prod.ext hposition hmarker
  have hall := flatMap_filter hpositions (List.pairwise_map.2 hsorted) hmem
  rw [List.flatMap_append, List.flatMap_singleton] at hall
  rw [← hend, ← hat, hall]

omit hoffsets in
/-- The regions of a table whose markers are placed lie in the code. -/
theorem below_of_firstMisplaced? {table : List Clause} {bound : Nat} (hbound : size < bound)
    (hplaced : firstMisplaced? size offsets (ofClauses table) = none) :
    ∀ r ∈ group table, r.Below bound := by
  intro r hr
  have hlt : ∀ m ∈ r.events, m.position < bound := fun m hm => by
    rcases position_of_firstMisplaced? hplaced (mem_ofClauses.2 ⟨r, hr, hm⟩) with hin | ⟨heq, -⟩
    · have := hsize _ hin
      omega
    · omega
  exact ⟨hlt r.ending (CodeRegion.mem_events.2 (Or.inr (Or.inr rfl))),
    fun h hh => hlt (r.handling h) (CodeRegion.mem_events.2 (Or.inr (Or.inl ⟨h, hh, rfl⟩)))⟩

variable {table : List Clause}
  (hplaced : firstMisplaced? size offsets (ofClauses table) = none)
include hplaced

/-- Building a table from the markers of another is scanning these. -/
theorem clausesFrom_ofClauses {index : Nat} {clauses : List Clause} :
    clausesFrom size index {} (offsets.map fun offset => (offset, at? offset (ofClauses table))) =
        .ok clauses ↔
      RegionScan.through {} ((ofClauses table).map event) = some ⟨[], clauses⟩ := by
  have hsorted := pairwise_position_of_inCodeOrder (inCodeOrder_ofClauses table)
  obtain ⟨count, heq⟩ := map_event_eq hoffsets hsize hsorted hplaced
  have hbegin := beginnings_ofClauses table
  have hend := endings_ofClauses table
  rw [heq] at hbegin hend
  rw [clausesFrom_eq_ok_iff, heq, openEnds]
  simp only [beginnings, endings, List.countP_append, List.countP_replicate,
    Marker.phase_endTry] at hbegin hend ⊢
  have hcount : count = (markerEvents (offsets.map fun offset =>
      (offset, at? offset (ofClauses table)))).countP (fun e => e.2.phase == 2) -
        (markerEvents (offsets.map fun offset =>
          (offset, at? offset (ofClauses table)))).countP fun e => e.2.phase == 0 := by
    simp at hbegin hend
    omega
  rw [← hcount]

variable (hbound : size < 0xffffffff)
include hbound

/-- **Building a table from the markers of another gives its clauses, up to order, if and only if
it is well nested.** -/
theorem perm_iff_wellNested {index : Nat} {clauses : List Clause}
    (h : clausesFrom size index {}
      (offsets.map fun offset => (offset, at? offset (ofClauses table))) = .ok clauses) :
    clauses.Perm table ↔ WellNested table := by
  have hbelow := below_of_firstMisplaced? hsize hbound hplaced
  rw [clausesFrom_ofClauses hoffsets hsize hplaced] at h
  refine ⟨wellNested_of_perm hbelow h, fun hnested => ?_⟩
  obtain ⟨clauses', hthrough, hperm⟩ := hnested.exists_through hbelow
  cases h.symm.trans hthrough
  exact hperm

/-- The markers of a well nested table build a table. -/
theorem WellNested.exists_clausesFrom (hnested : WellNested table) (index : Nat) :
    ∃ clauses, clausesFrom size index {}
      (offsets.map fun offset => (offset, at? offset (ofClauses table))) = .ok clauses := by
  obtain ⟨clauses, hthrough, -⟩ :=
    hnested.exists_through (below_of_firstMisplaced? hsize hbound hplaced)
  exact ⟨clauses, (clausesFrom_ofClauses hoffsets hsize hplaced).2 hthrough⟩

end

/-! ### The markers of a table that was built -/

/-! ### From markers in front of instructions to a table -/

section

variable {size : Nat} {entries : List (Nat × List Marker)}
  (hpositions : entries.Pairwise fun a b => a.1 < b.1) (hsize : ∀ entry ∈ entries, entry.1 < size)
include hpositions hsize

/-- The markers in front of each instruction can be told from all of them. -/
theorem map_filter_markerEvents (count : Nat) :
    ∀ entry ∈ entries, ((markerEvents entries ++ List.replicate count (size, Marker.endTry)).filter
      (·.1 == entry.1)).map (·.2) = entry.2 := by
  intro entry hentry
  have hown (entry : Nat × List Marker) (position : Nat) :
      (entry.2.map (entry.1, ·)).filter (·.1 == position) =
        if entry.1 = position then entry.2.map (entry.1, ·) else [] := by
    split
    · next h => exact List.filter_eq_self.2 (by simp [h])
    · next h => exact List.filter_eq_nil_iff.2 (by simp [h])
  have hends : (List.replicate count (size, Marker.endTry)).filter (·.1 == entry.1) = [] := by
    refine List.filter_eq_nil_iff.2 fun e he => ?_
    have := hsize entry hentry
    rw [(List.mem_replicate.1 he).2]
    simp
    omega
  rw [List.filter_append, hends, List.append_nil, markerEvents, List.filter_flatMap]
  clear hends hsize
  -- the offsets increase, so the markers at this one are those of its own entry
  induction entries with
  | nil => cases hentry
  | cons first rest ih =>
    obtain ⟨hfirst, hpositions⟩ := List.pairwise_cons.1 hpositions
    rw [List.flatMap_cons, hown, List.map_append]
    rcases List.mem_cons.1 hentry with rfl | hentry
    · have hnone : rest.flatMap (fun e => (e.2.map (e.1, ·)).filter (·.1 == entry.1)) = [] := by
        refine List.flatMap_eq_nil_iff.2 fun e he => ?_
        rw [hown, if_neg (Nat.ne_of_gt (hfirst e he))]
      rw [hnone, if_pos rfl]
      simp
    · rw [if_neg (Nat.ne_of_lt (hfirst entry hentry)), List.map_nil, List.nil_append]
      exact ih hpositions hentry

/-- What holds of markers at one instruction, and of any two at increasing offsets, holds of all
markers in front of instructions and of ends behind them. -/
theorem pairwise_markerEvents (count : Nat) {R : Nat × Marker → Nat × Marker → Prop}
    (hbefore : ∀ a b, a.1 < b.1 → R a b) (hend : R (size, .endTry) (size, .endTry))
    (hsame : ∀ entry ∈ entries, (entry.2.map (entry.1, ·)).Pairwise R) :
    (markerEvents entries ++ List.replicate count (size, Marker.endTry)).Pairwise R := by
  refine List.pairwise_append.2 ⟨?_, List.pairwise_replicate.2 (Or.inr hend), ?_⟩
  · refine List.pairwise_flatMap.2 ⟨hsame, hpositions.imp fun hlt e he e' he' => ?_⟩
    obtain ⟨m, -, rfl⟩ := List.mem_map.1 he
    obtain ⟨m', -, rfl⟩ := List.mem_map.1 he'
    exact hbefore _ _ hlt
  · intro e he e' he'
    obtain ⟨entry, hentry, he⟩ := List.mem_flatMap.1 he
    obtain ⟨m, -, rfl⟩ := List.mem_map.1 he
    rw [(List.mem_replicate.1 he').2]
    exact hbefore _ _ (hsize entry hentry)

/-- Markers in front of instructions are in the order of the code if they are so in front of each
instruction. -/
theorem inCodeOrder_markerEvents (count : Nat)
    (hphases : ∀ entry ∈ entries, entry.2.Pairwise fun a b => a.phase ≤ b.phase) :
    InCodeOrder (markerEvents entries ++ List.replicate count (size, .endTry)) := by
  refine pairwise_markerEvents hpositions hsize count (fun _ _ hlt => Or.inl hlt)
    (Or.inr ⟨rfl, Nat.le_refl _⟩) fun entry hentry => ?_
  exact List.pairwise_map.2 ((hphases entry hentry).imp fun h => Or.inr ⟨rfl, h⟩)

/-- **A table built from markers in the order of the code has these markers.** -/
theorem at?_ofClauses (hbound : size < 0x100000000)
    (hphases : ∀ entry ∈ entries, entry.2.Pairwise fun a b => a.phase ≤ b.phase) {index : Nat}
    {clauses : List Clause} (h : clausesFrom size index {} entries = .ok clauses) :
    ∀ entry ∈ entries, at? entry.1 (ofClauses clauses) = entry.2 := by
  rw [clausesFrom_eq_ok_iff] at h
  have hordered : InCodeOrder (markerEvents entries ++ openEnds size (markerEvents entries)) :=
    inCodeOrder_markerEvents hpositions hsize _ hphases
  obtain ⟨ms, regions, hnested, hms, rfl⟩ := RegionScan.exists_nested h hordered.offsets
  have hsorted := pairwise_position_of_inCodeOrder (hms ▸ hordered)
  have hstop : ∀ r ∈ regions, r.stop < 0x100000000 := by
    intro r hr
    have hmem : r.ending.event ∈ ms.map event :=
      List.mem_map_of_mem (hnested.mem_events.2 ⟨r, hr, mem_events.2 (Or.inr (Or.inr rfl))⟩)
    rw [hms] at hmem
    rcases List.mem_append.1 hmem with hmem | hmem
    · obtain ⟨entry, hentry, hmem⟩ := List.mem_flatMap.1 hmem
      obtain ⟨m, -, heq⟩ := List.mem_map.1 hmem
      have hposition : entry.1 = r.stop := congrArg Prod.fst heq
      have := hsize entry hentry
      omega
    · have hposition : r.stop = size := congrArg Prod.fst (List.mem_replicate.1 hmem).2
      omega
  -- the scan has nested the markers, so grouping and sorting the rows gives them back
  have htight := hnested.tight (hms ▸ hordered)
  have hgroup := group_flatMap htight hstop (hnested.follows hsorted)
  have htable : ofClauses (regions.flatMap CodeRegion.clauses) = ms := by
    rw [ofClauses, hgroup, hnested.sort_eq htight hsorted]
  intro entry hentry
  rw [htable, at?_eq, hms]
  exact map_filter_markerEvents hpositions hsize _ entry hentry

end

end MethodWeave
