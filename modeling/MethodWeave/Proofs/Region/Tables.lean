import MethodWeave.Proofs.Region.Grouping
import MethodWeave.Proofs.Region.Sorting
import Mathlib.Data.List.Pairwise
import Mathlib.Data.List.Perm.Subperm
/-!
Tables that markers can express.

The markers of a table say where regions, handlers and ends are, but not which end belongs to which
beginning, nor where a try block ends; a scan finds that out by nesting.  It finds the regions of
the table if and only if these are nested to begin with (`WellNested`).

Main results: scanning the markers of a well nested table gives its clauses up to order
(`WellNested.exists_through`), and a table whose clauses come out of such a scan is well nested
(`wellNested_of_perm`).
-/

namespace MethodWeave

open CodeRegion PlacedMarker

/-- A table that markers can express: in each region the try block goes up to the first handler and
neither it nor the last handler is empty, and of any two regions, one lies in a part of the other or
they are apart. -/
structure WellNested (table : List Clause) : Prop where
  tight : ∀ r ∈ group table, r.Tight
  compatible : (group table).Pairwise Compatible

/-! ### Regions with the same rows -/

namespace CodeRegion

/-- Regions with the same bounds, whose handlers begin at the same offsets. -/
structure SameBounds (r r' : CodeRegion) : Prop where
  tryStart : r.tryStart = r'.tryStart
  tryLength : r.tryLength = r'.tryLength
  stop : r.stop = r'.stop
  handlers : ∀ start, (∃ h ∈ r.handlers, h.2 = start) ↔ ∃ h ∈ r'.handlers, h.2 = start

variable {r r' : CodeRegion}

theorem sameBounds_of_clauses (hr : r.Chained) (hr' : r'.Chained)
    (h : ∀ c, c ∈ r.clauses ↔ c ∈ r'.clauses) : r.SameBounds r' := by
  obtain ⟨c, hc, hend⟩ := hr.exists_handlerEnd
  obtain ⟨c', hc', hend'⟩ := hr'.exists_handlerEnd
  have htry := (hr.tryBlock_of_mem hc).symm.trans (hr'.tryBlock_of_mem ((h c).1 hc))
  have hle := hr'.handlerEnd_le c ((h c).1 hc)
  have hle' := hr.handlerEnd_le c' ((h c').2 hc')
  have hstarts {r : CodeRegion} (hr : r.Chained) (start : Nat) :
      (∃ h ∈ r.handlers, h.2 = start) ↔ ∃ c ∈ r.clauses, c.handlerOffset.toNat = start := by
    refine List.mem_map.symm.trans ?_
    rw [← hr.map_handlerOffset]
    exact List.mem_map
  refine ⟨(Prod.mk.inj htry).1, (Prod.mk.inj htry).2, by omega, fun start => ?_⟩
  rw [hstarts hr, hstarts hr']
  simp only [h]

theorem SameBounds.around (hr : r.SameBounds r') {o o' : CodeRegion} (ho : o.SameBounds o')
    (h : Around o' r') : Around o r := by
  refine ⟨ho.tryStart ▸ hr.tryStart ▸ h.1, ho.stop ▸ hr.stop ▸ h.2.1, fun a ha => ?_⟩
  obtain ⟨b, hb, hstart⟩ := (ho.handlers a.2).1 ⟨a, ha, rfl⟩
  rw [hr.tryStart, hr.stop, ← hstart]
  exact h.2.2 b hb

theorem SameBounds.compatible (hr : r.SameBounds r') {o o' : CodeRegion} (ho : o.SameBounds o')
    (h : Compatible r' o') : Compatible r o := by
  have key {r r' o o' : CodeRegion} (hr : r.SameBounds r') (ho : o.SameBounds o')
      (h : Follows r' o') : Follows r o :=
    h.imp (fun hapart => hr.stop ▸ ho.tryStart ▸ hapart) fun haround => hr.around ho haround
  exact h.imp (key hr ho) (key ho hr)

/-- A region of a table is as tight as one with the same bounds. -/
theorem SameBounds.tight (h : r.SameBounds r') (hr : r.Chained) (hr' : r'.Tight) : r.Tight := by
  have hstart : ∀ a ∈ r.handlers, r.tryStart + r.tryLength ≤ a.2 ∧ a.2 < r.stop := by
    intro a ha
    obtain ⟨b, hb, hab⟩ := (h.handlers a.2).1 ⟨a, ha, rfl⟩
    rw [h.tryStart, h.tryLength, h.stop, ← hab]
    exact ⟨hr'.le_handler hb, hr'.stop b hb⟩
  refine ⟨?_, h.tryLength ▸ hr'.covers, hr.ordered, fun a ha => (hstart a ha).2⟩
  obtain ⟨first, rest, hhandlers⟩ := List.exists_cons_of_ne_nil hr.handlers
  obtain ⟨kind, rest', hhandlers'⟩ := hr'.handlers_eq
  obtain ⟨a, ha, hfirst⟩ := (h.handlers (r'.tryStart + r'.tryLength)).2
    ⟨_, hhandlers' ▸ List.mem_cons_self, rfl⟩
  have hordered := hr.ordered
  have hlow := (hstart first (hhandlers ▸ List.mem_cons_self)).1
  have hle : first.2 ≤ a.2 := by
    rw [hhandlers] at ha hordered
    rcases List.mem_cons.1 ha with rfl | ha
    · exact Nat.le_refl _
    · exact (List.pairwise_cons.1 hordered).1 a ha
  rw [hhandlers, List.head?_cons, Option.map_some, h.tryStart, h.tryLength]
  rw [h.tryStart, h.tryLength] at hlow
  exact congrArg some (by omega)

end CodeRegion

/-! ### Telling regions by their try blocks -/

/-- The try block of a region. -/
def CodeRegion.tryBlock (r : CodeRegion) : Nat × Nat := (r.tryStart, r.tryLength)

/-- Regions with pairwise different try blocks can be told from the rows of all of them. -/
theorem mem_clauses_iff_of_tryBlock {regions : List CodeRegion}
    (hchained : ∀ r ∈ regions, r.Chained) (hnodup : (regions.map tryBlock).Nodup) {r : CodeRegion}
    (hr : r ∈ regions) (c : Clause) : c ∈ r.clauses ↔
      c ∈ regions.flatMap clauses ∧ (c.tryOffset.toNat, c.tryLength.toNat) = r.tryBlock := by
  constructor
  · exact fun hc => ⟨List.mem_flatMap.2 ⟨r, hr, hc⟩, (hchained r hr).tryBlock_of_mem hc⟩
  · rintro ⟨hc, htryBlock⟩
    obtain ⟨r', hr', hc⟩ := List.mem_flatMap.1 hc
    have heq : r' = r := List.inj_on_of_nodup_map hnodup hr' hr
      (((hchained r' hr').tryBlock_of_mem hc).symm.trans htryBlock)
    exact heq ▸ hc

section

variable {regions found : List CodeRegion} (hregions : ∀ r ∈ regions, r.Chained)
  (hfound : ∀ r ∈ found, r.Chained) (hlength : regions.length = found.length)
  (hperm : (found.flatMap clauses).Perm (regions.flatMap clauses))
include hregions hfound hlength hperm

/-- As many regions with the same rows have the same try blocks. -/
theorem perm_tryBlock (hnodup : (found.map tryBlock).Nodup) :
    (found.map tryBlock).Perm (regions.map tryBlock) := by
  refine (hnodup.subperm fun block hblock => ?_).perm_of_length_le (by simp [hlength])
  obtain ⟨r, hr, rfl⟩ := List.mem_map.1 hblock
  obtain ⟨c, hc, -⟩ := (hfound r hr).exists_handlerEnd
  obtain ⟨r', hr', hc'⟩ := List.mem_flatMap.1 (hperm.mem_iff.1 (List.mem_flatMap.2 ⟨r, hr, hc⟩))
  exact List.mem_map.2 ⟨r', hr', ((hregions r' hr').tryBlock_of_mem hc').symm.trans
    ((hfound r hr).tryBlock_of_mem hc)⟩

/-- **Regions with the rows of as many nested regions are nested themselves.** -/
theorem nested_of_perm (htight : ∀ r ∈ found, r.Tight) (hfollows : found.Pairwise Follows) :
    (∀ r ∈ regions, r.Tight) ∧ regions.Pairwise Compatible := by
  have hdistinct : (found.map tryBlock).Nodup := List.pairwise_map.2 (hfollows.imp_of_mem
    fun hr hr' h => h.tryBlock_ne (htight _ hr) (htight _ hr'))
  have hblocks := perm_tryBlock hregions hfound hlength hperm hdistinct
  have hnodup : (regions.map tryBlock).Nodup := hblocks.nodup_iff.1 hdistinct
  have hsame : ∀ r ∈ regions, ∃ r' ∈ found, r'.tryBlock = r.tryBlock ∧ r.SameBounds r' := by
    intro r hr
    obtain ⟨r', hr', heq⟩ := List.mem_map.1 (hblocks.mem_iff.2 (List.mem_map_of_mem hr))
    refine ⟨r', hr', heq, sameBounds_of_clauses (hregions r hr) (hfound r' hr') fun c => ?_⟩
    rw [mem_clauses_iff_of_tryBlock hregions hnodup hr,
      mem_clauses_iff_of_tryBlock hfound hdistinct hr', hperm.mem_iff, heq]
  constructor
  · intro r hr
    obtain ⟨r', hr', -, h⟩ := hsame r hr
    exact h.tight (hregions r hr) (htight r' hr')
  · refine (List.pairwise_map.1 hnodup).imp_of_mem fun {r o} hr ho hne => ?_
    obtain ⟨r', hr', heq, hrSame⟩ := hsame r hr
    obtain ⟨o', ho', heq', hoSame⟩ := hsame o ho
    have hfoundCompatible : found.Pairwise Compatible := hfollows.imp fun h => Or.inl h
    have : Std.Symm Compatible := ⟨fun _ _ h => h.symm⟩
    refine hrSame.compatible hoSame (hfoundCompatible.forall hr' ho' fun h => hne ?_)
    rw [← heq, ← heq', h]

end

/-! ### The markers of a table -/

theorem phase_of_mem_events {r : CodeRegion} {m : PlacedMarker} (h : m ∈ r.events) :
    m.marker.phase = m.phase := by
  rcases CodeRegion.mem_events.1 h with rfl | ⟨a, -, rfl⟩ | rfl
  · rfl
  · exact Marker.phase_marker a.1
  · rfl

theorem mem_ofClauses {table : List Clause} {m : PlacedMarker} :
    m ∈ ofClauses table ↔ ∃ r ∈ group table, m ∈ r.events := by
  simp only [ofClauses, (sort_perm _).mem_iff, List.mem_flatMap, mem_ofRegion]

/-- The markers of a table are in the order of the code. -/
theorem inCodeOrder_ofClauses (table : List Clause) :
    InCodeOrder ((ofClauses table).map event) := by
  refine List.pairwise_map.2 ((pairwise_sort _).imp_of_mem fun {a b} ha hb hle => ?_)
  obtain ⟨r, -, ha⟩ := mem_ofClauses.1 ha
  obtain ⟨r', -, hb⟩ := mem_ofClauses.1 hb
  simp only [event, phase_of_mem_events ha, phase_of_mem_events hb]
  simp only [le, Bool.or_eq_true, Bool.and_eq_true, decide_eq_true_eq, beq_iff_eq] at hle
  omega

theorem pairwise_position_of_inCodeOrder {ms : List PlacedMarker}
    (h : InCodeOrder (ms.map event)) : ms.Pairwise fun a b => a.position ≤ b.position :=
  (List.pairwise_map (f := event)).1 h.offsets

theorem beginnings_append (events more : List (Nat × Marker)) :
    beginnings (events ++ more) = beginnings events + beginnings more := List.countP_append

theorem beginnings_events (r : CodeRegion) : beginnings (r.events.map event) = 1 := by
  simp [beginnings, CodeRegion.events, CodeRegion.beginning, CodeRegion.handling,
    CodeRegion.ending, event]

/-- Each region begins once. -/
theorem Nested.beginnings_eq {ms : List PlacedMarker} {regions : List CodeRegion}
    (h : Nested ms regions) : beginnings (ms.map event) = regions.length := by
  induction h with
  | nil => rfl
  | @region r front back regions hr hfront inner ih =>
    simp only [List.map_append, beginnings_append, beginnings_events, List.length_cons] at ih ⊢
    omega

theorem ofRegion_perm (r : CodeRegion) : (ofRegion r).Perm r.events := by
  rw [ofRegion_eq, CodeRegion.events, List.cons_append, List.cons_append]
  refine (List.perm_append_comm.cons _).trans ?_
  exact (List.Perm.swap _ _ _).trans ((List.perm_append_singleton _ _).symm.cons _)

/-- What each region has once, the markers of a table have once for each of its regions. -/
theorem countP_ofClauses {p : Nat × Marker → Bool}
    (hp : ∀ r : CodeRegion, (r.events.map event).countP p = 1) (table : List Clause) :
    ((ofClauses table).map event).countP p = (group table).length := by
  rw [ofClauses, ((sort_perm _).map event).countP_eq]
  induction group table with
  | nil => rfl
  | cons r regions ih =>
    have hfirst : ((ofRegion r).map event).countP p = 1 :=
      (((ofRegion_perm r).map event).countP_eq p).trans (hp r)
    rw [List.flatMap_cons, List.map_append, List.countP_append, hfirst, ih, List.length_cons,
      Nat.add_comm]

theorem beginnings_ofClauses (table : List Clause) :
    beginnings ((ofClauses table).map event) = (group table).length :=
  countP_ofClauses beginnings_events table

theorem endings_ofClauses (table : List Clause) :
    endings ((ofClauses table).map event) = (group table).length := by
  refine countP_ofClauses (fun r => ?_) table
  simp [CodeRegion.events, CodeRegion.beginning, CodeRegion.handling, CodeRegion.ending, event]

section

variable {table : List Clause} (hbelow : ∀ r ∈ group table, r.Below 0xffffffff)
include hbelow

/-- The markers of a well nested table can be scanned, and give its clauses by their ends. -/
theorem WellNested.exists_through (h : WellNested table) :
    ∃ clauses, RegionScan.through {} ((ofClauses table).map event) = some ⟨[], clauses⟩ ∧
      clauses.Perm table := by
  obtain ⟨byEnd, hperm, hnested⟩ := exists_nested_sort h.tight h.compatible
  refine ⟨_, hnested.through, (hperm.flatMap_right _).trans ?_⟩
  rw [flatMap_group hbelow]

/-- A table that a scan of its markers gives back is well nested. -/
theorem wellNested_of_perm {clauses : List Clause}
    (h : RegionScan.through {} ((ofClauses table).map event) = some ⟨[], clauses⟩)
    (hperm : clauses.Perm table) : WellNested table := by
  obtain ⟨ms, found, hnested, hms, rfl⟩ :=
    RegionScan.exists_nested h (inCodeOrder_ofClauses table).offsets
  have hordered : InCodeOrder (ms.map event) := hms ▸ inCodeOrder_ofClauses table
  have hlength : (group table).length = found.length := by
    rw [← beginnings_ofClauses, ← hms, hnested.beginnings_eq]
  have htight := hnested.tight hordered
  have hchained : ∀ r ∈ found, r.Chained := by
    intro r hr
    refine (htight r hr).chained ?_
    have hmem : r.ending.event ∈ ms.map event :=
      List.mem_map_of_mem (hnested.mem_events.2 ⟨r, hr, mem_events.2 (Or.inr (Or.inr rfl))⟩)
    obtain ⟨m, hm, heq⟩ := List.mem_map.1 (hms ▸ hmem)
    obtain ⟨r', hr', hm⟩ := mem_ofClauses.1 hm
    have hstop : r.stop = m.position := (congrArg Prod.fst heq).symm
    have hr'Chained := chained_of_mem_group r' hr'
    rcases mem_events.1 hm with rfl | ⟨a, ha, rfl⟩ | rfl
    · exact hstop ▸ hr'Chained.tryStart
    · exact hstop ▸ Nat.lt_of_le_of_lt (hr'Chained.le_stop a ha) hr'Chained.stop
    · exact hstop ▸ hr'Chained.stop
  obtain ⟨htight, hcompatible⟩ := nested_of_perm chained_of_mem_group hchained hlength
    (hperm.trans (List.Perm.of_eq (flatMap_group hbelow).symm)) htight
    (hnested.follows (pairwise_position_of_inCodeOrder hordered))
  exact ⟨htight, hcompatible⟩

end

end MethodWeave
