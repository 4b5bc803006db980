import MethodWeave.Proofs.Region.Nesting
import Mathlib.Data.List.Sort
/-!
Sorting the markers of regions.

A region is inserted into the sorted markers of regions that end behind it as one block: each of
their markers stands in front of the whole region or behind it (`Follows.inFront_or_behind`).  Two
regions of which neither cuts the other have no markers of equal rank, so the order in which they
are inserted does not matter (`sort_flatMap_perm`).

Main results: nested markers in the order of the code are what sorting the markers of their regions
gives (`Nested.sort_eq`), and the sorted markers of regions none of which cuts another are nested
(`exists_nested_sort`).
-/

namespace MethodWeave

namespace PlacedMarker

/-! ### Insertion -/

theorem le_total (a b : PlacedMarker) : a.le b = true ∨ b.le a = true := by
  simp only [le, Bool.or_eq_true, Bool.and_eq_true, decide_eq_true_eq, beq_iff_eq]
  omega

theorem le_trans {a b c : PlacedMarker} (hab : a.le b = true) (hbc : b.le c = true) :
    a.le c = true := by
  simp only [le, Bool.or_eq_true, Bool.and_eq_true, decide_eq_true_eq, beq_iff_eq] at *
  omega

theorem le_of_not_le {a b : PlacedMarker} (h : b.le a = false) : a.le b = true :=
  (le_total a b).resolve_right (by rw [h]; exact Bool.false_ne_true)

theorem position_le_of_le {a b : PlacedMarker} (h : a.le b = true) : a.position ≤ b.position := by
  simp only [le, Bool.or_eq_true, Bool.and_eq_true, decide_eq_true_eq, beq_iff_eq] at h
  omega

theorem le_eq_false_iff {a b : PlacedMarker} : a.le b = false ↔
    b.position < a.position ∨ b.position = a.position ∧
      (b.phase < a.phase ∨ b.phase = a.phase ∧ b.order < a.order) := by
  simp only [le, Bool.or_eq_false_iff, Bool.and_eq_false_iff, decide_eq_false_iff_not,
    beq_eq_false_iff_ne]
  omega

theorem insertInto_eq_orderedInsert (a : PlacedMarker) (ms : List PlacedMarker) :
    a.insertInto ms = ms.orderedInsert (fun x y => x.le y = true) a := by
  induction ms with
  | nil => rfl
  | cons b rest ih => rw [insertInto, List.orderedInsert_cons, ih]

theorem sort_eq_insertionSort (ms : List PlacedMarker) :
    sort ms = ms.insertionSort fun x y => x.le y = true := by
  induction ms with
  | nil => rfl
  | cons a ms ih => rw [List.insertionSort_cons, ← ih, ← insertInto_eq_orderedInsert]; rfl

theorem sort_perm (ms : List PlacedMarker) : (sort ms).Perm ms := by
  rw [sort_eq_insertionSort]
  exact List.perm_insertionSort _ _

theorem pairwise_sort (ms : List PlacedMarker) : (sort ms).Pairwise fun x y => x.le y = true := by
  rw [sort_eq_insertionSort]
  have : Std.Total fun x y : PlacedMarker => x.le y = true := ⟨le_total⟩
  have : IsTrans PlacedMarker fun x y => x.le y = true := ⟨fun _ _ _ => le_trans⟩
  exact List.pairwise_insertionSort _ _

/-- A marker goes to where the markers in front of it end and those behind it begin. -/
theorem insertInto_append {a : PlacedMarker} {front back : List PlacedMarker}
    (hfront : ∀ m ∈ front, a.le m = false) (hback : ∀ m ∈ back, a.le m = true) :
    a.insertInto (front ++ back) = front ++ a :: back := by
  induction front with
  | nil =>
    cases back with
    | nil => rfl
    | cons b back => exact if_pos (hback b List.mem_cons_self)
  | cons b front ih =>
    obtain ⟨hb, hfront⟩ := List.forall_mem_cons.1 hfront
    rw [List.cons_append, insertInto, if_neg (by rw [hb]; exact Bool.false_ne_true), ih hfront,
      List.cons_append]

/-- Two markers of which only one may stand in front of the other. -/
def Untied (a b : PlacedMarker) : Prop := a.le b = !b.le a

theorem Untied.symm {a b : PlacedMarker} (h : a.Untied b) : b.Untied a := by
  rw [Untied, h, Bool.not_not]

/-- Markers of different rank may be inserted in any order. -/
theorem insertInto_comm {a b : PlacedMarker} (h : a.Untied b) (ms : List PlacedMarker) :
    a.insertInto (b.insertInto ms) = b.insertInto (a.insertInto ms) := by
  induction ms with
  | nil =>
    simp only [insertInto]
    rw [h]
    cases b.le a <;> rfl
  | cons c ms ih =>
    cases hac : a.le c <;> cases hbc : b.le c
    · simp [insertInto, hac, hbc, ih]
    · have hba : b.le a = true := le_trans hbc (le_of_not_le hac)
      have hab : a.le b = false := by rw [h, hba]; rfl
      simp [insertInto, hac, hbc, hab]
    · have hab : a.le b = true := le_trans hac (le_of_not_le hbc)
      have hba : b.le a = false := by rw [h.symm, hab]; rfl
      simp [insertInto, hac, hbc, hba]
    · have hab := h
      cases hba : b.le a <;> rw [Untied, hba] at hab <;> simp [insertInto, hac, hbc, hba, hab]

theorem foldr_insertInto_comm {as bs : List PlacedMarker}
    (h : ∀ a ∈ as, ∀ b ∈ bs, a.Untied b) (ms : List PlacedMarker) :
    as.foldr insertInto (bs.foldr insertInto ms) = bs.foldr insertInto (as.foldr insertInto ms) := by
  have single (a : PlacedMarker) (ha : ∀ b ∈ bs, a.Untied b) (ms : List PlacedMarker) :
      a.insertInto (bs.foldr insertInto ms) = bs.foldr insertInto (a.insertInto ms) := by
    induction bs with
    | nil => rfl
    | cons b bs ih =>
      obtain ⟨hb, hbs⟩ := List.forall_mem_cons.1 ha
      rw [List.foldr_cons, List.foldr_cons, insertInto_comm hb,
        ih (fun a ha b hb => h a ha b (List.mem_cons_of_mem _ hb)) hbs]
  induction as with
  | nil => rfl
  | cons a as ih =>
    obtain ⟨ha, has⟩ := List.forall_mem_cons.1 h
    rw [List.foldr_cons, List.foldr_cons, ih has, single a ha]

end PlacedMarker

namespace CodeRegion

open PlacedMarker

/-! ### A region among the markers of others -/

/-- A marker, not an end, that stands in front of all markers of a region. -/
def InFront (r : CodeRegion) (m : PlacedMarker) : Prop :=
  m.position ≤ r.tryStart ∧ m.marker ≠ .endTry ∧ ∀ own ∈ r.events, own.le m = false

/-- A marker that stands behind all markers of a region. -/
def Behind (r : CodeRegion) (m : PlacedMarker) : Prop :=
  r.stop ≤ m.position ∧ ∀ own ∈ r.events, m.le own = false

theorem inFront_of {r : CodeRegion} (hr : r.Tight) {m : PlacedMarker} (hle : m.position ≤ r.tryStart)
    (hend : m.marker ≠ .endTry)
    (htie : m.position = r.tryStart → m.phase < 2 ∨ m.phase = 2 ∧ m.order < -r.extent) :
    r.InFront m := by
  refine ⟨hle, hend, fun own hown => le_eq_false_iff.2 ?_⟩
  rcases mem_events.1 hown with rfl | ⟨a, ha, rfl⟩ | rfl
  · simp only [beginning]
    omega
  · have := hr.tryStart_lt_handler ha
    simp only [handling]
    omega
  · have := hr.tryStart_lt_stop
    simp only [ending]
    omega

theorem behind_of {r : CodeRegion} (hr : r.Tight) {m : PlacedMarker} (hle : r.stop ≤ m.position)
    (htie : m.position = r.stop → 0 < m.phase ∨ m.phase = 0 ∧ r.extent < m.order) :
    r.Behind m := by
  refine ⟨hle, fun own hown => le_eq_false_iff.2 ?_⟩
  rcases mem_events.1 hown with rfl | ⟨a, ha, rfl⟩ | rfl
  · have := hr.tryStart_lt_stop
    simp only [beginning]
    omega
  · have := hr.stop a ha
    simp only [handling]
    omega
  · simp only [ending]
    omega

/-- **A region that ends behind another does not cut it.** -/
theorem Follows.inFront_or_behind {r r' : CodeRegion} (hr : r.Tight) (hr' : r'.Tight)
    (h : Follows r r') {m : PlacedMarker} (hm : m ∈ r'.events) : r.InFront m ∨ r.Behind m := by
  have hspan := hr.tryStart_lt_stop
  have hspan' := hr'.tryStart_lt_stop
  rcases h with hapart | ⟨hstart, hstop, hparts⟩
  · -- all of `r'` stands behind `r`
    right
    rcases mem_events.1 hm with rfl | ⟨a, ha, rfl⟩ | rfl
    · exact behind_of hr hapart fun _ => Or.inl Nat.two_pos
    · have := hr'.tryStart_lt_handler ha
      exact behind_of hr (by simp only [handling]; omega) fun _ => Or.inl Nat.one_pos
    · exact behind_of hr (by simp only [ending]; omega) fun heq => by
        simp only [ending] at heq
        omega
  · -- `r` lies in a part of `r'`, whose first handler is behind its beginning
    obtain ⟨kind, rest, hhandlers⟩ := hr'.handlers_eq
    have hfirst := hparts (kind, r'.tryStart + r'.tryLength) (hhandlers ▸ List.mem_cons_self)
    have hcovers := hr'.covers
    have hend := hr'.tryEnd_lt_stop
    simp only at hfirst
    rcases mem_events.1 hm with rfl | ⟨a, ha, rfl⟩ | rfl
    · refine Or.inl (inFront_of hr hstart Marker.noConfusion fun heq => Or.inr ⟨rfl, ?_⟩)
      simp only [beginning, extent] at heq ⊢
      omega
    · refine (hparts a ha).imp (fun hle => inFront_of hr hle ?_ fun _ => Or.inl Nat.one_lt_two)
        fun hle => behind_of hr hle fun _ => Or.inl Nat.one_pos
      exact fun h => absurd (Marker.phase_eq_zero.2 h) (by simp [handling])
    · refine Or.inr (behind_of hr hstop fun heq => Or.inr ⟨rfl, ?_⟩)
      simp only [ending, extent] at heq ⊢
      omega

/-- Regions that do not cut each other have no markers of equal rank. -/
theorem Compatible.untied {r r' : CodeRegion} (hr : r.Tight) (hr' : r'.Tight)
    (h : Compatible r r') {a b : PlacedMarker} (ha : a ∈ r.events) (hb : b ∈ r'.events) :
    a.Untied b := by
  -- whichever of the two ends first, no marker of the other ties with one of it
  have key {r r' : CodeRegion} (hr : r.Tight) (hr' : r'.Tight) (h : Follows r r')
      {a b : PlacedMarker} (ha : a ∈ r.events) (hb : b ∈ r'.events) : a.Untied b := by
    rcases h.inFront_or_behind hr hr' hb with ⟨-, -, hfront⟩ | ⟨-, hbehind⟩
    · rw [Untied, hfront a ha, le_of_not_le (hfront a ha)]
      rfl
    · rw [Untied, hbehind a ha, le_of_not_le (hbehind a ha)]
      rfl
  rcases h with h | h
  · exact key hr hr' h ha hb
  · exact (key hr' hr h hb ha).symm

theorem ofRegion_eq (r : CodeRegion) :
    ofRegion r = r.ending :: r.handlers.map r.handling ++ [r.beginning] := rfl

theorem mem_ofRegion {r : CodeRegion} {m : PlacedMarker} : m ∈ ofRegion r ↔ m ∈ r.events := by
  rw [mem_events, ofRegion_eq]
  simp only [List.cons_append, List.mem_cons, List.mem_append, List.mem_map, List.not_mem_nil,
    or_false, eq_comm]
  constructor <;> rintro (h | h | h) <;> simp [h]

/-- The markers of a region are inserted as a block. -/
theorem foldr_insertInto_ofRegion {r : CodeRegion} (hr : r.Tight) {front back : List PlacedMarker}
    (hfront : ∀ m ∈ front, r.InFront m) (hback : ∀ m ∈ back, r.Behind m) :
    (ofRegion r).foldr insertInto (front ++ back) = front ++ r.events ++ back := by
  -- from the last handler to the first: each one goes between the beginning and those put in
  have hhandlers : ∀ handlers : List (ClauseKind × Nat), handlers <:+ r.handlers →
      (handlers.map r.handling).foldr insertInto (front ++ r.beginning :: back) =
        front ++ r.beginning :: (handlers.map r.handling ++ back) := by
    intro handlers hsuffix
    induction handlers with
    | nil => rfl
    | cons a handlers ih =>
      have hmem : ∀ b ∈ a :: handlers, b ∈ r.handlers := fun b hb => hsuffix.subset hb
      have hown : r.handling a ∈ r.events :=
        mem_events.2 (Or.inr (Or.inl ⟨a, hmem a List.mem_cons_self, rfl⟩))
      have hstart := hr.tryStart_lt_handler (hmem a List.mem_cons_self)
      have hordered := (List.pairwise_cons.1 (hr.ordered.sublist hsuffix.sublist)).1
      rw [List.map_cons, List.foldr_cons, ih ((List.suffix_cons _ _).trans hsuffix)]
      have hinsert : (r.handling a).insertInto
          ((front ++ [r.beginning]) ++ (handlers.map r.handling ++ back)) =
            (front ++ [r.beginning]) ++ r.handling a :: (handlers.map r.handling ++ back) :=
        insertInto_append (fun m hm => ?_) fun m hm => ?_
      · simpa using hinsert
      · rcases List.mem_append.1 hm with hm | hm
        · exact (hfront m hm).2.2 _ hown
        · rw [List.mem_singleton.1 hm]
          refine le_eq_false_iff.2 (Or.inl ?_)
          simpa only [beginning, handling] using hstart
      · rcases List.mem_append.1 hm with hm | hm
        · obtain ⟨b, hb, rfl⟩ := List.mem_map.1 hm
          have hle : a.2 ≤ b.2 := hordered b hb
          have hbehind : ¬ b.2 < a.2 := Nat.not_lt.2 hle
          refine Bool.eq_true_of_not_eq_false fun h => ?_
          simpa [handling, hbehind] using le_eq_false_iff.1 h
        · exact le_of_not_le ((hback m hm).2 _ hown)
  -- the markers of a region are inserted backwards, so its beginning comes first
  have hbeginning : r.beginning.insertInto (front ++ back) = front ++ r.beginning :: back :=
    have hown : r.beginning ∈ r.events := mem_events.2 (Or.inl rfl)
    insertInto_append (fun m hm => (hfront m hm).2.2 _ hown)
      fun m hm => le_of_not_le ((hback m hm).2 _ hown)
  -- and its ending last, behind everything of its own
  have hending : r.ending.insertInto
      (front ++ r.beginning :: (r.handlers.map r.handling ++ back)) =
        front ++ r.events ++ back := by
    have hown : r.ending ∈ r.events := mem_events.2 (Or.inr (Or.inr rfl))
    have hinsert : r.ending.insertInto ((front ++ r.beginning :: r.handlers.map r.handling) ++ back) =
        (front ++ r.beginning :: r.handlers.map r.handling) ++ r.ending :: back :=
      insertInto_append (fun m hm => ?_) fun m hm => le_of_not_le ((hback m hm).2 _ hown)
    · simpa [events] using hinsert
    · rcases List.mem_append.1 hm with hm | hm
      · exact (hfront m hm).2.2 _ hown
      · have hspan := hr.tryStart_lt_stop
        rcases List.mem_cons.1 hm with rfl | hm
        · exact le_eq_false_iff.2 (Or.inl hspan)
        · obtain ⟨a, ha, rfl⟩ := List.mem_map.1 hm
          exact le_eq_false_iff.2 (Or.inl (hr.stop a ha))
  rw [ofRegion_eq, List.cons_append, List.foldr_cons, List.foldr_append, List.foldr_cons,
    List.foldr_nil, hbeginning, hhandlers _ (List.suffix_refl _), hending]

end CodeRegion

/-! ### Sorted markers -/

open PlacedMarker CodeRegion

theorem PlacedMarker.sort_append (as bs : List PlacedMarker) :
    sort (as ++ bs) = as.foldr insertInto (sort bs) := List.foldr_append

/-- **Nested markers in the order of the code are sorted.** -/
theorem Nested.sort_eq {ms : List PlacedMarker} {regions : List CodeRegion} (h : Nested ms regions)
    (htight : ∀ r ∈ regions, r.Tight)
    (hordered : ms.Pairwise fun a b => a.position ≤ b.position) :
    sort (regions.flatMap ofRegion) = ms := by
  induction h with
  | nil => rfl
  | @region r front back regions hjoined hfront inner ih =>
    obtain ⟨hr, htight⟩ := List.forall_mem_cons.1 htight
    have hfollows := (List.pairwise_cons.1
      (Nested.follows (.region hjoined hfront inner) hordered)).1
    have hsides : ∀ m ∈ front ++ back, r.InFront m ∨ r.Behind m := fun m hm => by
      obtain ⟨r', hr', hm⟩ := inner.mem_events.1 hm
      exact (hfollows r' hr').inFront_or_behind hr (htight r' hr') hm
    have hspan := hr.tryStart_lt_stop
    have hinner : (front ++ back).Pairwise fun a b => a.position ≤ b.position :=
      hordered.sublist (by simp)
    rw [List.append_assoc, List.pairwise_append, List.pairwise_append] at hordered
    obtain ⟨-, ⟨-, -, hback⟩, hfrontRest⟩ := hordered
    rw [List.flatMap_cons, sort_append, ih htight hinner]
    -- what stands in front in the list does not lie behind the region, nor the other way round
    refine foldr_insertInto_ofRegion hr (fun m hm => ?_) fun m hm => ?_
    · refine (hsides m (List.mem_append_left _ hm)).resolve_right fun hbehind => ?_
      have hle : m.position ≤ r.tryStart := hfrontRest m hm r.beginning
        (List.mem_append_left _ (CodeRegion.mem_events.2 (Or.inl rfl)))
      have := hbehind.1
      omega
    · refine (hsides m (List.mem_append_right _ hm)).resolve_left fun hinFront => ?_
      have hle : r.stop ≤ m.position := hback r.ending
        (CodeRegion.mem_events.2 (Or.inr (Or.inr rfl))) m hm
      have := hinFront.1
      omega

/-- Sorting the markers of regions that follow each other nests them. -/
theorem nested_sort {regions : List CodeRegion} (htight : ∀ r ∈ regions, r.Tight)
    (hfollows : regions.Pairwise Follows) : Nested (sort (regions.flatMap ofRegion)) regions := by
  induction regions with
  | nil => exact .nil
  | cons r regions ih =>
    obtain ⟨hr, htight⟩ := List.forall_mem_cons.1 htight
    obtain ⟨hfirst, hfollows⟩ := List.pairwise_cons.1 hfollows
    have inner := ih htight hfollows
    have hsides : ∀ m ∈ sort (regions.flatMap ofRegion), r.InFront m ∨ r.Behind m := fun m hm => by
      obtain ⟨r', hr', hm⟩ := inner.mem_events.1 hm
      exact (hfirst r' hr').inFront_or_behind hr (htight r' hr') hm
    have hsorted := pairwise_sort (regions.flatMap ofRegion)
    have hspan := hr.tryStart_lt_stop
    -- what stands in front of the region comes first
    have hsplit : ∀ ms : List PlacedMarker, (∀ m ∈ ms, r.InFront m ∨ r.Behind m) →
        ms.Pairwise (fun a b => a.le b = true) →
        ∃ front back, ms = front ++ back ∧ (∀ m ∈ front, r.InFront m) ∧ ∀ m ∈ back, r.Behind m := by
      intro ms hsides hsorted
      induction ms with
      | nil => exact ⟨[], [], rfl, nofun, nofun⟩
      | cons m ms ih =>
        obtain ⟨hm, hms⟩ := List.forall_mem_cons.1 hsides
        obtain ⟨hfirst, hsorted⟩ := List.pairwise_cons.1 hsorted
        rcases hm with hm | hm
        · obtain ⟨front, back, rfl, hfront, hback⟩ := ih hms hsorted
          exact ⟨m :: front, back, rfl, List.forall_mem_cons.2 ⟨hm, hfront⟩, hback⟩
        · refine ⟨[], m :: ms, rfl, nofun, List.forall_mem_cons.2 ⟨hm, fun m' hm' => ?_⟩⟩
          refine (hms m' hm').resolve_left fun hinFront => ?_
          have hle := position_le_of_le (hfirst m' hm')
          have hbehind := hm.1
          have hbefore := hinFront.1
          omega
    obtain ⟨front, back, heq, hfront, hback⟩ := hsplit _ hsides hsorted
    rw [List.flatMap_cons, sort_append, heq, foldr_insertInto_ofRegion hr hfront hback]
    exact .region hr.joined (fun m hm => (hfront m hm).2.1) (heq ▸ inner)

/-- The order of regions does not matter to their sorted markers. -/
theorem sort_flatMap_perm {regions regions' : List CodeRegion} (h : regions.Perm regions')
    (htight : ∀ r ∈ regions, r.Tight) (hcompatible : regions.Pairwise Compatible) :
    sort (regions.flatMap ofRegion) = sort (regions'.flatMap ofRegion) := by
  induction h with
  | nil => rfl
  | cons r _ ih =>
    rw [List.flatMap_cons, List.flatMap_cons, sort_append, sort_append,
      ih (List.forall_mem_cons.1 htight).2 (List.pairwise_cons.1 hcompatible).2]
  | swap r r' regions =>
    obtain ⟨hr', hr, -⟩ := by simpa only [List.forall_mem_cons] using htight
    have hboth := (List.pairwise_cons.1 hcompatible).1 r List.mem_cons_self
    simp only [List.flatMap_cons, sort_append]
    exact foldr_insertInto_comm (fun a ha b hb =>
      hboth.untied hr' hr (mem_ofRegion.1 ha) (mem_ofRegion.1 hb)) _
  | trans h₁ _ ih₁ ih₂ =>
    exact (ih₁ htight hcompatible).trans (ih₂ (fun r hr => htight r (h₁.mem_iff.2 hr))
      (h₁.pairwise hcompatible fun h => h.symm))

/-- Of two regions that do not cut each other, the one with the later end follows. -/
theorem CodeRegion.Compatible.follows {r r' : CodeRegion} (hr : r.Tight) (hr' : r'.Tight)
    (h : Compatible r r') (hle : r.ending.le r'.ending = true) : Follows r r' := by
  refine h.resolve_right fun hback => ?_
  rcases hback.inFront_or_behind hr' hr (m := r.ending) (mem_events.2 (Or.inr (Or.inr rfl)))
    with ⟨-, hend, -⟩ | ⟨-, hbehind⟩
  · exact hend rfl
  · rw [hbehind r'.ending (mem_events.2 (Or.inr (Or.inr rfl)))] at hle
    cases hle

/-- **The sorted markers of regions that do not cut each other are nested.** -/
theorem exists_nested_sort {regions : List CodeRegion} (htight : ∀ r ∈ regions, r.Tight)
    (hcompatible : regions.Pairwise Compatible) :
    ∃ byEnd : List CodeRegion, byEnd.Perm regions ∧
      Nested (sort (regions.flatMap ofRegion)) byEnd := by
  let endsBefore (r r' : CodeRegion) : Prop := r.ending.le r'.ending = true
  have : DecidableRel endsBefore := fun r r' => inferInstanceAs (Decidable (_ = true))
  have : Std.Total endsBefore := ⟨fun r r' => le_total _ _⟩
  have : IsTrans CodeRegion endsBefore := ⟨fun _ _ _ => le_trans⟩
  have hperm := List.perm_insertionSort endsBefore regions
  have htight' : ∀ r ∈ regions.insertionSort endsBefore, r.Tight :=
    fun r hr => htight r (hperm.mem_iff.1 hr)
  refine ⟨regions.insertionSort endsBefore, hperm, ?_⟩
  rw [← sort_flatMap_perm hperm htight' (hperm.symm.pairwise hcompatible fun h => h.symm)]
  refine nested_sort htight' ?_
  refine ((hperm.symm.pairwise hcompatible fun h => h.symm).and
    (List.pairwise_insertionSort endsBefore regions)).imp_of_mem fun {r r'} hr hr' h => ?_
  exact h.1.follows (htight' r hr) (htight' r' hr') h.2

end MethodWeave
