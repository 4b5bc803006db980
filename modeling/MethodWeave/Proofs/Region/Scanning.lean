import MethodWeave.Instruction.Region
import MethodWeave.Native.Region
import Mathlib.Data.List.Perm.Basic
/-!
Scanning the markers of one region.

Markers are looked at as a flat list of events, each a marker with its offset.  The events of a
region that has no other region in it stand together: its beginning, its handlers, its end.  Such a
block adds the clauses of the region to a scan and changes nothing else (`through_events`), and what
clauses a scan has collected so far does not matter to what follows (`through_collected`).
-/

namespace MethodWeave

/-! ### Markers -/

namespace Marker

/-- The place of a marker among others at one offset: ends, then handlers, then beginnings. -/
def phase : Marker → Nat
  | .endTry => 0
  | .beginCatch _ | .beginFinally | .beginFault => 1
  | .beginTry => 2

@[simp] theorem phase_beginTry : phase .beginTry = 2 := rfl

@[simp] theorem phase_endTry : phase .endTry = 0 := rfl

@[simp] theorem phase_marker (kind : ClauseKind) : kind.marker.phase = 1 := by cases kind <;> rfl

theorem phase_eq_zero {m : Marker} : m.phase = 0 ↔ m = .endTry := by cases m <;> simp [phase]

theorem phase_eq_two {m : Marker} : m.phase = 2 ↔ m = .beginTry := by cases m <;> simp [phase]

/-- What neither begins nor ends a region begins a handler. -/
theorem exists_eq_marker {m : Marker} (hend : m.phase ≠ 0) (hbegin : m.phase ≠ 2) :
    ∃ kind : ClauseKind, m = kind.marker := by
  cases m with
  | beginTry => exact absurd rfl hbegin
  | endTry => exact absurd rfl hend
  | beginCatch type? => exact ⟨.catching type?, rfl⟩
  | beginFinally => exact ⟨.finally, rfl⟩
  | beginFault => exact ⟨.fault, rfl⟩

end Marker

/-- How many of the markers begin a region. -/
def beginnings (events : List (Nat × Marker)) : Nat := events.countP fun e => e.2.phase == 2

/-- How many of the markers end a region. -/
def endings (events : List (Nat × Marker)) : Nat := events.countP fun e => e.2.phase == 0

/-! ### Scans -/

namespace RegionScan

/-- Take in markers with their offsets, one after the other. -/
def through (s : RegionScan) (events : List (Nat × Marker)) : Option RegionScan :=
  events.foldlM (fun s e => s.mark e.1 e.2) s

@[simp] theorem through_nil (s : RegionScan) : s.through [] = some s := rfl

theorem through_cons (s : RegionScan) (e : Nat × Marker) (events : List (Nat × Marker)) :
    s.through (e :: events) = (s.mark e.1 e.2).bind fun s' => s'.through events := rfl

theorem through_cons_eq_some {s s' : RegionScan} {e : Nat × Marker} {events : List (Nat × Marker)} :
    s.through (e :: events) = some s' ↔
      ∃ s₁, s.mark e.1 e.2 = some s₁ ∧ s₁.through events = some s' :=
  Option.bind_eq_some_iff

theorem through_append (s : RegionScan) (events more : List (Nat × Marker)) :
    s.through (events ++ more) = (s.through events).bind fun s' => s'.through more := by
  simp only [through, List.foldlM_append]
  rfl

/-- The scan with further clauses in front of those that it has collected. -/
def collected (clauses : List Clause) (s : RegionScan) : RegionScan :=
  { s with clauses := clauses ++ s.clauses }

theorem mark_collected (clauses : List Clause) (s : RegionScan) (position : Nat) (m : Marker) :
    (s.collected clauses).mark position m = (s.mark position m).map (collected clauses) := by
  obtain ⟨regions, before⟩ := s
  cases m with
  | beginTry => rfl
  | beginCatch | beginFinally | beginFault => cases regions <;> rfl
  | endTry =>
    cases regions with
    | nil => rfl
    | cons region outer =>
      simp only [collected, mark, Marker.handler?, Option.map_map]
      refine congrArg (Option.map · _) (funext fun cs => ?_)
      simp [collected, List.append_assoc]

/-- What is in the table already does not matter to a scan. -/
theorem through_collected (clauses : List Clause) (s : RegionScan) (events : List (Nat × Marker)) :
    (s.collected clauses).through events = (s.through events).map (collected clauses) := by
  induction events generalizing s with
  | nil => rfl
  | cons e events ih =>
    rw [through_cons, through_cons, mark_collected]
    cases s.mark e.1 e.2 with
    | none => rfl
    | some s' => exact ih s'

/-- As long as no region ends, no clause is added. -/
theorem clauses_of_mark {s s' : RegionScan} {position : Nat} {m : Marker}
    (h : s.mark position m = some s') (hm : m ≠ .endTry) : s'.clauses = s.clauses := by
  obtain ⟨regions, before⟩ := s
  cases m with
  | beginTry => cases h; rfl
  | beginCatch | beginFinally | beginFault =>
    cases regions with
    | nil => cases h
    | cons region outer => cases h; rfl
  | endTry => exact absurd rfl hm

theorem clauses_of_through {s s' : RegionScan} {events : List (Nat × Marker)}
    (h : s.through events = some s') (hevents : ∀ e ∈ events, e.2 ≠ .endTry) :
    s'.clauses = s.clauses := by
  induction events generalizing s with
  | nil => cases h; rfl
  | cons e events ih =>
    obtain ⟨he, hevents⟩ := List.forall_mem_cons.1 hevents
    obtain ⟨s₁, hfirst, hrest⟩ := through_cons_eq_some.1 h
    rw [ih hrest hevents, clauses_of_mark hfirst he]

/-- A marker opens a region, ends one, or leaves as many open as there were. -/
theorem length_regions_of_mark {s s' : RegionScan} {position : Nat} {m : Marker}
    (h : s.mark position m = some s') :
    s'.regions.length + (if m.phase = 0 then 1 else 0) =
      s.regions.length + (if m.phase = 2 then 1 else 0) := by
  obtain ⟨regions, before⟩ := s
  cases m with
  | beginTry => cases h; rfl
  | beginCatch | beginFinally | beginFault =>
    cases regions with
    | nil => cases h
    | cons region outer => cases h; rfl
  | endTry =>
    cases regions with
    | nil => cases h
    | cons region outer =>
      obtain ⟨cs, -, rfl⟩ := Option.map_eq_some_iff.1 h
      rfl

/-- The regions that are open are those that have begun and not ended. -/
theorem length_regions_of_through {s s' : RegionScan} {events : List (Nat × Marker)}
    (h : s.through events = some s') :
    s'.regions.length + endings events = s.regions.length + beginnings events := by
  induction events generalizing s with
  | nil => cases h; rfl
  | cons e events ih =>
    obtain ⟨s₁, hfirst, hrest⟩ := through_cons_eq_some.1 h
    have hmark := length_regions_of_mark hfirst
    have hrest := ih hrest
    simp only [endings, beginnings, List.countP_cons, beq_iff_eq] at hrest ⊢
    omega

/-- The marker that begins a handler hands the innermost region on to it. -/
theorem mark_marker (region : OpenRegion) (outer : List OpenRegion) (clauses : List Clause)
    (kind : ClauseKind) (position : Nat) :
    mark ⟨region :: outer, clauses⟩ position kind.marker =
      some ⟨{ region.closePart position with handler? := some (kind, position) } :: outer,
        clauses⟩ := by
  cases kind <;> rfl

end RegionScan

/-! ### The events of a region -/

namespace PlacedMarker

/-- A marker with its offset. -/
def event (m : PlacedMarker) : Nat × Marker := (m.position, m.marker)

end PlacedMarker

namespace CodeRegion

/-- The row of one handler. -/
def row (tryStart tryLength : Nat) (kind : ClauseKind) (start stop : Nat) : Clause :=
  { kind := kind
    tryOffset := UInt32.ofNat tryStart
    tryLength := UInt32.ofNat tryLength
    handlerOffset := UInt32.ofNat start
    handlerLength := UInt32.ofNat (stop - start) }

/-- Where the handler in front of `handlers` ends, if the last one ends at `stop`. -/
def nextStart (stop : Nat) (handlers : List (ClauseKind × Nat)) : Nat :=
  (handlers.head?.map (·.2)).getD stop

/-- The rows of handlers that follow each other without gap, the last one up to `stop`. -/
def rows (tryStart tryLength stop : Nat) : List (ClauseKind × Nat) → List Clause
  | [] => []
  | (kind, start) :: rest =>
    row tryStart tryLength kind start (nextStart stop rest) :: rows tryStart tryLength stop rest

/-- The clauses of a region. -/
def clauses (r : CodeRegion) : List Clause := rows r.tryStart r.tryLength r.stop r.handlers

/-- The marker at the beginning of a region. -/
def beginning (r : CodeRegion) : PlacedMarker := ⟨r.tryStart, 2, -r.extent, .beginTry⟩

/-- The marker at the beginning of a handler. -/
def handling (r : CodeRegion) (h : ClauseKind × Nat) : PlacedMarker :=
  ⟨h.2, 1, r.extent, h.1.marker⟩

/-- The marker at the end of a region. -/
def ending (r : CodeRegion) : PlacedMarker := ⟨r.stop, 0, r.extent, .endTry⟩

/-- The markers of a region in the order of the code. -/
def events (r : CodeRegion) : List PlacedMarker :=
  r.beginning :: r.handlers.map r.handling ++ [r.ending]

theorem mem_events {r : CodeRegion} {m : PlacedMarker} :
    m ∈ r.events ↔ m = r.beginning ∨ (∃ h ∈ r.handlers, m = r.handling h) ∨ m = r.ending := by
  simp [events, eq_comm]

/-- The try block goes up to the first handler, and the handlers follow it up to the end. -/
structure Joined (r : CodeRegion) : Prop where
  tryEnd : r.handlers.head?.map (·.2) = some (r.tryStart + r.tryLength)
  ordered : r.handlers.Pairwise fun a b => a.2 ≤ b.2
  le_stop : ∀ h ∈ r.handlers, h.2 ≤ r.stop

theorem Joined.handlers_eq {r : CodeRegion} (h : r.Joined) :
    ∃ kind rest, r.handlers = (kind, r.tryStart + r.tryLength) :: rest := by
  obtain ⟨first, hfirst, hstart⟩ := Option.map_eq_some_iff.1 h.tryEnd
  obtain ⟨rest, hrest⟩ := List.head?_eq_some_iff.1 hfirst
  exact ⟨first.1, rest, by rw [hrest, ← hstart]⟩

/-- The try block goes up to the first handler, and neither it nor the last handler is empty. -/
structure Tight (r : CodeRegion) : Prop where
  tryEnd : r.handlers.head?.map (·.2) = some (r.tryStart + r.tryLength)
  covers : 0 < r.tryLength
  ordered : r.handlers.Pairwise fun a b => a.2 ≤ b.2
  stop : ∀ h ∈ r.handlers, h.2 < r.stop

theorem Tight.joined {r : CodeRegion} (h : r.Tight) : r.Joined :=
  ⟨h.tryEnd, h.ordered, fun a ha => Nat.le_of_lt (h.stop a ha)⟩

theorem Tight.handlers_eq {r : CodeRegion} (h : r.Tight) :
    ∃ kind rest, r.handlers = (kind, r.tryStart + r.tryLength) :: rest := h.joined.handlers_eq

theorem Tight.le_handler {r : CodeRegion} (h : r.Tight) {a : ClauseKind × Nat}
    (ha : a ∈ r.handlers) : r.tryStart + r.tryLength ≤ a.2 := by
  obtain ⟨kind, rest, hhandlers⟩ := h.handlers_eq
  have hordered := h.ordered
  rw [hhandlers] at ha hordered
  rcases List.mem_cons.1 ha with rfl | ha
  · exact Nat.le_refl _
  · exact (List.pairwise_cons.1 hordered).1 a ha

theorem Tight.tryStart_lt_handler {r : CodeRegion} (h : r.Tight) {a : ClauseKind × Nat}
    (ha : a ∈ r.handlers) : r.tryStart < a.2 := by
  have hcovers := h.covers
  have hle := h.le_handler ha
  omega

theorem Tight.tryEnd_lt_stop {r : CodeRegion} (h : r.Tight) :
    r.tryStart + r.tryLength < r.stop := by
  obtain ⟨kind, rest, hhandlers⟩ := h.handlers_eq
  exact h.stop (kind, r.tryStart + r.tryLength) (hhandlers ▸ List.mem_cons_self)

theorem Tight.tryStart_lt_stop {r : CodeRegion} (h : r.Tight) : r.tryStart < r.stop := by
  have hcovers := h.covers
  have hlt := h.tryEnd_lt_stop
  omega

end CodeRegion

/-! ### Scanning a region -/

namespace RegionScan

open CodeRegion

/-- The handlers that follow a handler in progress, and the end of the region. -/
theorem through_handlers (outer : List OpenRegion) (clauses : List Clause) (stop tryStart tryEnd : Nat)
    (finished : List (ClauseKind × Nat × Nat)) (kind : ClauseKind) (start : Nat)
    (rest : List (ClauseKind × Nat)) :
    through ⟨⟨tryStart, some tryEnd, some (kind, start), finished⟩ :: outer, clauses⟩
        (rest.map (fun h => (h.2, h.1.marker)) ++ [(stop, .endTry)]) =
      some ⟨outer, clauses ++
        (finished.map (fun f => row tryStart (tryEnd - tryStart) f.1 f.2.1 f.2.2) ++
          rows tryStart (tryEnd - tryStart) stop ((kind, start) :: rest))⟩ := by
  induction rest generalizing finished kind start with
  | nil =>
    simp [through_cons, mark, Marker.handler?, OpenRegion.closePart, OpenRegion.clauses?, rows, row,
      nextStart]
  | cons next rest ih =>
    rw [List.map_cons, List.cons_append, through_cons, mark_marker]
    refine (ih (finished ++ [(kind, start, next.2)]) next.1 next.2).trans ?_
    simp [rows, nextStart]

/-- **The events of a region by itself add its clauses.** -/
theorem through_events {r : CodeRegion} (hr : r.Joined) (s : RegionScan) :
    s.through (r.events.map PlacedMarker.event) =
      some { s with clauses := s.clauses ++ r.clauses } := by
  obtain ⟨kind, rest, hhandlers⟩ := hr.handlers_eq
  have hevents : r.events.map PlacedMarker.event =
      (r.tryStart, Marker.beginTry) :: (r.tryStart + r.tryLength, kind.marker) ::
        (rest.map (fun h => (h.2, h.1.marker)) ++ [(r.stop, .endTry)]) := by
    simp [events, hhandlers, beginning, handling, ending, PlacedMarker.event]
  rw [hevents, through_cons]
  refine (Option.bind_some _ _).trans ?_
  rw [through_cons, mark_marker]
  refine (through_handlers s.regions s.clauses r.stop r.tryStart (r.tryStart + r.tryLength) [] kind
    (r.tryStart + r.tryLength) rest).trans ?_
  rw [Nat.add_sub_cancel_left, List.map_nil, List.nil_append, CodeRegion.clauses, hhandlers]

end RegionScan

end MethodWeave
