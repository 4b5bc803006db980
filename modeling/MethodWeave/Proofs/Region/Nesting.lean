import MethodWeave.Proofs.Region.Scanning
/-!
Regions inside each other.

Two regions of a table that markers can express are apart, or one lies in the try block or in one
handler of the other (`CodeRegion.Around`).  The markers of such regions are built up region by
region, each time putting the events of one region somewhere in front of the first end
(`Nested`).

Main results: a scan of nested markers gives the clauses of the regions, in the order of their ends
(`Nested.through`), and every scan that succeeds on markers whose offsets do not decrease is a scan
of nested markers (`exists_nested`).
-/

namespace MethodWeave

namespace CodeRegion

/-- `r` lies in the try block of `o` or in one of its handlers. -/
def Around (o r : CodeRegion) : Prop :=
  o.tryStart ≤ r.tryStart ∧ r.stop ≤ o.stop ∧
    ∀ h ∈ o.handlers, h.2 ≤ r.tryStart ∨ r.stop ≤ h.2

/-- `r'` ends behind `r`: it begins behind it, or it is around it. -/
def Follows (r r' : CodeRegion) : Prop := r.stop ≤ r'.tryStart ∨ Around r' r

/-- Two regions are apart, or one lies in a part of the other. -/
def Compatible (r r' : CodeRegion) : Prop := Follows r r' ∨ Follows r' r

theorem Compatible.symm {r r' : CodeRegion} (h : Compatible r r') : Compatible r' r := Or.symm h

/-- Regions behind one another have different try blocks. -/
theorem Follows.tryBlock_ne {r r' : CodeRegion} (hr : r.Tight) (hr' : r'.Tight)
    (h : Follows r r') : (r.tryStart, r.tryLength) ≠ (r'.tryStart, r'.tryLength) := by
  intro heq
  obtain ⟨hstart, hlength⟩ := Prod.mk.inj heq
  have hcovers := hr.covers
  have hstop := hr.tryEnd_lt_stop
  rcases h with hapart | ⟨-, -, hparts⟩
  · omega
  · obtain ⟨kind, rest, hhandlers⟩ := hr'.handlers_eq
    have hfirst := hparts (kind, r'.tryStart + r'.tryLength) (hhandlers ▸ List.mem_cons_self)
    simp only at hfirst
    omega

end CodeRegion

/-! ### The order of the code -/

/-- Markers with their offsets in the order of the code. -/
def InCodeOrder (events : List (Nat × Marker)) : Prop :=
  events.Pairwise fun a b => a.1 < b.1 ∨ a.1 = b.1 ∧ a.2.phase ≤ b.2.phase

theorem InCodeOrder.offsets {events : List (Nat × Marker)} (h : InCodeOrder events) :
    events.Pairwise fun a b => a.1 ≤ b.1 :=
  h.imp fun hab => hab.elim Nat.le_of_lt fun heq => Nat.le_of_eq heq.1

/-- A region in front of whose beginning nothing has ended puts its clauses in front of all others.
-/
theorem RegionScan.through_region {r : CodeRegion} (hr : r.Joined) {front back : List (Nat × Marker)}
    (hfront : ∀ e ∈ front, e.2 ≠ .endTry) :
    through {} (front ++ r.events.map PlacedMarker.event ++ back) =
      (through {} (front ++ back)).map (collected r.clauses) := by
  rw [List.append_assoc, through_append, through_append {} front back]
  cases hs : through {} front with
  | none => rfl
  | some s =>
    have hnone : s.clauses = [] := clauses_of_through hs hfront
    have hblock : ({ s with clauses := s.clauses ++ r.clauses } : RegionScan) =
        s.collected r.clauses := by simp [collected, hnone]
    rw [Option.bind_some, Option.bind_some, through_append, through_events hr, Option.bind_some,
      hblock, through_collected]

/-! ### Nested markers -/

/-- The markers of regions that lie apart or inside each other.  The regions are in the order of
their ends. -/
inductive Nested : List PlacedMarker → List CodeRegion → Prop
  | nil : Nested [] []
  | region {r : CodeRegion} {front back : List PlacedMarker} {regions : List CodeRegion}
      (hr : r.Joined) (hfront : ∀ m ∈ front, m.marker ≠ .endTry)
      (inner : Nested (front ++ back) regions) : Nested (front ++ r.events ++ back) (r :: regions)

namespace Nested

variable {events : List PlacedMarker} {regions : List CodeRegion}

theorem joined (h : Nested events regions) : ∀ r ∈ regions, r.Joined := by
  induction h with
  | nil => exact nofun
  | region hr hfront inner ih => exact List.forall_mem_cons.2 ⟨hr, ih⟩

theorem mem_events (h : Nested events regions) {m : PlacedMarker} :
    m ∈ events ↔ ∃ r ∈ regions, m ∈ r.events := by
  induction h with
  | nil => simp
  | @region r front back regions hr hfront inner ih =>
    rw [List.mem_append] at ih
    rw [List.mem_append, List.mem_append, or_right_comm, ih, or_comm]
    simp only [List.mem_cons, exists_eq_or_imp]

/-- **A scan of nested markers gives the clauses of the regions.** -/
theorem through (h : Nested events regions) :
    RegionScan.through {} (events.map PlacedMarker.event) =
      some ⟨[], regions.flatMap CodeRegion.clauses⟩ := by
  induction h with
  | nil => rfl
  | @region r front back regions hr hfront inner ih =>
    have hfront' : ∀ e ∈ front.map PlacedMarker.event, e.2 ≠ .endTry := by
      intro e he
      obtain ⟨m, hm, rfl⟩ := List.mem_map.1 he
      exact hfront m hm
    rw [List.map_append] at ih
    rw [List.map_append, List.map_append, RegionScan.through_region hr hfront', ih]
    rfl

/-- In the order of the code, each region follows those in front of it. -/
theorem follows (h : Nested events regions)
    (hordered : events.Pairwise fun a b => a.position ≤ b.position) :
    regions.Pairwise CodeRegion.Follows := by
  induction h with
  | nil => exact List.Pairwise.nil
  | @region r front back regions hr hfront inner ih =>
    rw [List.append_assoc, List.pairwise_append, List.pairwise_append] at hordered
    obtain ⟨hfrontOrdered, ⟨-, hbackOrdered, heventsBack⟩, hfrontRest⟩ := hordered
    have hbefore : ∀ m ∈ front, m.position ≤ r.tryStart := fun m hm =>
      hfrontRest m hm r.beginning (List.mem_append_left _ (CodeRegion.mem_events.2 (Or.inl rfl)))
    have hbehind : ∀ m ∈ back, r.stop ≤ m.position := fun m hm =>
      heventsBack r.ending (CodeRegion.mem_events.2 (Or.inr (Or.inr rfl))) m hm
    refine List.Pairwise.cons (fun r' hr' => ?_) (ih (List.pairwise_append.2
      ⟨hfrontOrdered, hbackOrdered, fun a ha b hb => hfrontRest a ha b (List.mem_append_right _ hb)⟩))
    have hmem : ∀ m ∈ r'.events, m ∈ front ∨ m ∈ back := fun m hm =>
      List.mem_append.1 (inner.mem_events.2 ⟨r', hr', hm⟩)
    have hbeginning := hmem r'.beginning (CodeRegion.mem_events.2 (Or.inl rfl))
    have hending := hmem r'.ending (CodeRegion.mem_events.2 (Or.inr (Or.inr rfl)))
    -- no end stands in front of `r`
    have hstop : r.stop ≤ r'.stop :=
      hbehind r'.ending (hending.resolve_left fun hm => hfront _ hm rfl)
    rcases hbeginning with hin | hin
    · refine Or.inr ⟨hbefore _ hin, hstop, fun a ha => ?_⟩
      exact (hmem (r'.handling a) (CodeRegion.mem_events.2 (Or.inr (Or.inl ⟨a, ha, rfl⟩)))).imp
        (hbefore _) (hbehind _)
    · exact Or.inl (hbehind _ hin)

/-- In the order of the code, a handler behind the beginning or in front of the end is not at the
offset of it. -/
theorem tight (h : Nested events regions) (hordered : InCodeOrder (events.map PlacedMarker.event)) :
    ∀ r ∈ regions, r.Tight := by
  induction h with
  | nil => exact nofun
  | @region r front back regions hr hfront inner ih =>
    refine List.forall_mem_cons.2 ⟨?_, ih (hordered.sublist ?_)⟩
    · have hown : InCodeOrder (r.events.map PlacedMarker.event) := by
        refine hordered.sublist (List.Sublist.map _ ?_)
        rw [List.append_assoc]
        exact (List.sublist_append_left _ _).trans (List.sublist_append_right _ _)
      simp only [InCodeOrder, CodeRegion.events, List.map_cons, List.cons_append, List.map_append,
        List.map_map, List.pairwise_cons, List.pairwise_append, List.mem_append, List.mem_map,
        List.map_nil, List.mem_singleton] at hown
      obtain ⟨hbeginning, -, -, hending⟩ := hown
      obtain ⟨kind, rest, hhandlers⟩ := hr.handlers_eq
      refine ⟨hr.tryEnd, ?_, hr.ordered, fun a ha => ?_⟩
      · have hfirst : r.tryStart < r.tryStart + r.tryLength ∨
            r.tryStart = r.tryStart + r.tryLength ∧ 2 ≤ kind.marker.phase :=
          hbeginning _ (Or.inl ⟨(kind, r.tryStart + r.tryLength), hhandlers ▸ List.mem_cons_self, rfl⟩)
        rw [Marker.phase_marker] at hfirst
        omega
      · have hlast : a.2 < r.stop ∨ a.2 = r.stop ∧ a.1.marker.phase ≤ 0 :=
          hending _ ⟨a, ha, rfl⟩ _ rfl
        rw [Marker.phase_marker] at hlast
        omega
    · rw [List.append_assoc]
      exact ((List.sublist_append_right _ _).append_left front).map _

end Nested

/-! ### Every scan is one of nested markers -/

namespace RegionScan

/-- The first marker that ends a region. -/
theorem exists_first_end {events : List (Nat × Marker)} (h : endings events ≠ 0) :
    ∃ front stop back, events = front ++ (stop, .endTry) :: back ∧ ∀ e ∈ front, e.2.phase ≠ 0 := by
  induction events with
  | nil => exact absurd rfl h
  | cons e events ih =>
    by_cases he : e.2.phase = 0
    · obtain ⟨stop, m⟩ := e
      cases Marker.phase_eq_zero.1 he
      exact ⟨[], stop, events, rfl, nofun⟩
    · obtain ⟨front, stop, back, rfl, hfront⟩ := ih (by simpa [endings, he] using h)
      exact ⟨e :: front, stop, back, rfl, List.forall_mem_cons.2 ⟨he, hfront⟩⟩

/-- The last marker that begins a region. -/
theorem exists_last_beginning {events : List (Nat × Marker)} (h : beginnings events ≠ 0) :
    ∃ front start back, events = front ++ (start, .beginTry) :: back ∧
      ∀ e ∈ back, e.2.phase ≠ 2 := by
  induction events with
  | nil => exact absurd rfl h
  | cons e events ih =>
    by_cases hrest : beginnings events = 0
    · have he : e.2.phase = 2 := by
        by_contra he
        exact h (by simpa [beginnings, he] using hrest)
      obtain ⟨start, m⟩ := e
      cases Marker.phase_eq_two.1 he
      exact ⟨[], start, events, rfl, by simpa [beginnings] using hrest⟩
    · obtain ⟨front, start, back, rfl, hback⟩ := ih hrest
      exact ⟨e :: front, start, back, rfl, hback⟩

/-- Markers that neither begin nor end a region begin handlers. -/
theorem exists_handlers {events : List (Nat × Marker)}
    (h : ∀ e ∈ events, e.2.phase ≠ 0 ∧ e.2.phase ≠ 2) :
    ∃ handlers : List (ClauseKind × Nat), events = handlers.map fun a => (a.2, a.1.marker) := by
  induction events with
  | nil => exact ⟨[], rfl⟩
  | cons e events ih =>
    obtain ⟨⟨hend, hbegin⟩, hrest⟩ := List.forall_mem_cons.1 h
    obtain ⟨handlers, rfl⟩ := ih hrest
    obtain ⟨kind, hkind⟩ := Marker.exists_eq_marker hend hbegin
    exact ⟨(kind, e.1) :: handlers, by rw [List.map_cons, ← hkind]⟩

/-- In front of the first end stand the beginning and the handlers of the region that ends. -/
theorem exists_innermost {s' : RegionScan} {events : List (Nat × Marker)}
    (h : through {} events = some s') (hends : endings events ≠ 0)
    (hordered : events.Pairwise fun a b => a.1 ≤ b.1) :
    ∃ (r : CodeRegion) (front back : List (Nat × Marker)), r.Joined ∧
      (∀ e ∈ front, e.2 ≠ .endTry) ∧
      events = front ++ r.events.map PlacedMarker.event ++ back := by
  obtain ⟨before, stop, back, rfl, hbefore⟩ := exists_first_end hends
  rw [through_append, Option.bind_eq_some_iff] at h
  obtain ⟨s, hs, hend⟩ := h
  -- a region is open in front of the end
  have hbegun : beginnings before ≠ 0 := by
    have hopen := length_regions_of_through hs
    have hnone : endings before = 0 := by simpa [endings] using hbefore
    obtain ⟨regions, clauses⟩ := s
    cases regions with
    | nil => cases hend
    | cons region outer =>
      simp only [List.length_cons, List.length_nil, hnone] at hopen
      omega
  obtain ⟨front, start, middle, rfl, hmiddle⟩ := exists_last_beginning hbegun
  have hneither : ∀ e ∈ middle, e.2.phase ≠ 0 ∧ e.2.phase ≠ 2 := fun e he =>
    ⟨hbefore e (by simp [he]), hmiddle e he⟩
  obtain ⟨handlers, rfl⟩ := exists_handlers hneither
  rw [through_append, Option.bind_eq_some_iff] at hs
  obtain ⟨s₀, -, hs⟩ := hs
  simp only [List.append_assoc, List.cons_append, List.pairwise_append, List.pairwise_cons,
    List.pairwise_map, List.mem_append, List.mem_cons, List.mem_map] at hordered
  obtain ⟨-, ⟨hstart, hhandlers, -, hstop⟩, -⟩ := hordered
  cases handlers with
  | nil =>
    -- a region without a handler cannot end
    cases hs
    cases hend
  | cons first rest =>
    have hfirst : start ≤ first.2 :=
      hstart (first.2, first.1.marker) (Or.inl ⟨first, List.mem_cons_self, rfl⟩)
    refine ⟨⟨start, first.2 - start, first :: rest, stop⟩, front, back, ⟨?_, hhandlers, ?_⟩,
      fun e he => ?_, ?_⟩
    · rw [List.head?_cons, Option.map_some, Nat.add_sub_of_le hfirst]
    · exact fun a ha => hstop (a.2, a.1.marker) ⟨a, ha, rfl⟩ (stop, .endTry) (Or.inl rfl)
    · exact fun hend => hbefore e (by simp [he]) (Marker.phase_eq_zero.2 hend)
    · simp [CodeRegion.events, CodeRegion.beginning, CodeRegion.handling, CodeRegion.ending,
        PlacedMarker.event]

/-- Nothing is open and nothing ends only if there are no markers. -/
theorem eq_nil_of_through {clauses : List Clause} {events : List (Nat × Marker)}
    (h : through {} events = some ⟨[], clauses⟩) (hends : endings events = 0) : events = [] := by
  have hopen := length_regions_of_through h
  cases events with
  | nil => rfl
  | cons e events =>
    obtain ⟨s₁, hfirst, -⟩ := through_cons_eq_some.1 h
    have hbegin : e.2.phase = 2 := by
      have := length_regions_of_mark hfirst
      simp only [endings, List.countP_cons] at hends
      cases hm : e.2 with
      | beginTry => rfl
      | _ => rw [hm] at hfirst; cases hfirst
    simp only [List.length_nil, hends, beginnings, List.countP_cons, hbegin] at hopen
    simp at hopen

/-- **A scan that succeeds is one of nested markers.** -/
theorem exists_nested {events : List (Nat × Marker)} {clauses : List Clause}
    (h : through {} events = some ⟨[], clauses⟩)
    (hordered : events.Pairwise fun a b => a.1 ≤ b.1) :
    ∃ ms regions, Nested ms regions ∧ ms.map PlacedMarker.event = events ∧
      regions.flatMap CodeRegion.clauses = clauses := by
  -- each step takes the region that ends first out of the markers
  induction hn : endings events generalizing events clauses with
  | zero =>
    cases eq_nil_of_through h hn
    cases h
    exact ⟨[], [], .nil, rfl, rfl⟩
  | succ n ih =>
    obtain ⟨r, front, back, hr, hfront, rfl⟩ := exists_innermost h (by omega) hordered
    rw [through_region hr hfront, Option.map_eq_some_iff] at h
    obtain ⟨⟨_, clauses'⟩, hthrough, heq⟩ := h
    cases heq
    have hsub : (front ++ back).Sublist (front ++ r.events.map PlacedMarker.event ++ back) := by
      simp
    have hcount : endings (front ++ back) = n := by
      have hblock : endings (r.events.map PlacedMarker.event) = 1 := by
        simp [endings, CodeRegion.events, CodeRegion.beginning, CodeRegion.handling,
          CodeRegion.ending, PlacedMarker.event]
      simp only [endings, List.countP_append] at hn hblock ⊢
      omega
    obtain ⟨ms, regions, hnested, hms, rfl⟩ := ih hthrough (hordered.sublist hsub) hcount
    obtain ⟨msFront, msBack, rfl, hmsFront, hmsBack⟩ := List.map_eq_append_iff.1 hms
    refine ⟨msFront ++ r.events ++ msBack, r :: regions, .region hr (fun m hm => ?_) hnested, ?_, rfl⟩
    · refine hfront m.event ?_
      rw [← hmsFront]
      exact List.mem_map_of_mem hm
    · rw [List.map_append, List.map_append, hmsFront, hmsBack]

end RegionScan

end MethodWeave
