import MethodWeave.Body
import MethodWeave.Code.Payload
/-!
From an exception table to region markers.

Successive clauses with the same try block belong to one region as long as each handler begins
where the one before it ended.  A region gives a marker for its beginning, one for the beginning of
each handler, and one for its end.  At one position the ends come first, inner regions before outer
ones, then beginnings of handlers, then beginnings of regions, outer ones before inner ones.
-/

namespace MethodWeave

/-- A try block with the handlers that follow each other without gap. -/
structure CodeRegion where
  tryStart : Nat
  tryLength : Nat
  /-- What each handler does, and where it begins. -/
  handlers : List (ClauseKind × Nat)
  /-- Where the last handler ends. -/
  stop : Nat
deriving Repr, Inhabited

namespace CodeRegion

/-- The region of a single clause. -/
def ofClause (c : Clause) : CodeRegion :=
  { tryStart := c.tryOffset.toNat
    tryLength := c.tryLength.toNat
    handlers := [(c.kind, c.handlerOffset.toNat)]
    stop := c.handlerEnd }

/-- Does a clause go on with the region? -/
def continuedBy (r : CodeRegion) (c : Clause) : Bool :=
  r.tryStart == c.tryOffset.toNat && r.tryLength == c.tryLength.toNat
    && r.stop == c.handlerOffset.toNat

/-- The region with one more handler. -/
def extend (r : CodeRegion) (c : Clause) : CodeRegion :=
  { r with handlers := r.handlers ++ [(c.kind, c.handlerOffset.toNat)], stop := c.handlerEnd }

/-- The regions of a table whose beginning has been read as `current`. -/
def groupFrom (current : CodeRegion) : List Clause → List CodeRegion
  | [] => [current]
  | c :: rest =>
    if current.continuedBy c then groupFrom (current.extend c) rest
    else current :: groupFrom (ofClause c) rest

/-- The regions of an exception table, in table order. -/
def group : List Clause → List CodeRegion
  | [] => []
  | c :: rest => groupFrom (ofClause c) rest

/-- Bytes from the beginning of the try block to the end of the last handler. -/
def extent (r : CodeRegion) : Int := (r.stop : Int) - r.tryStart

end CodeRegion

/-- A marker at a code position, with what decides its place among others there. -/
structure PlacedMarker where
  position : Nat
  /-- Ends have phase 0, handlers 1, beginnings 2. -/
  phase : Nat
  order : Int
  marker : Marker
deriving Repr, Inhabited

namespace PlacedMarker

/-- May `a` stand in front of `b`? -/
def le (a b : PlacedMarker) : Bool :=
  a.position < b.position ||
    (a.position == b.position &&
      (a.phase < b.phase || (a.phase == b.phase && a.order ≤ b.order)))

/-- Put a marker in front of the first one that it may stand in front of. -/
def insertInto (a : PlacedMarker) : List PlacedMarker → List PlacedMarker
  | [] => [a]
  | b :: rest => if a.le b then a :: b :: rest else b :: insertInto a rest

/-- Sort markers; those with equal keys keep their order. -/
def sort (ms : List PlacedMarker) : List PlacedMarker := ms.foldr insertInto []

/-- The markers of one region. -/
def ofRegion (r : CodeRegion) : List PlacedMarker :=
  ⟨r.stop, 0, r.extent, .endTry⟩
    :: r.handlers.map (fun (kind, start) => ⟨start, 1, r.extent, kind.marker⟩)
    ++ [⟨r.tryStart, 2, -r.extent, .beginTry⟩]

/-- The markers of an exception table, by position. -/
def ofClauses (clauses : List Clause) : List PlacedMarker :=
  sort ((CodeRegion.group clauses).flatMap ofRegion)

/-- The markers at one position, in order. -/
def at? (position : Nat) (ms : List PlacedMarker) : List Marker :=
  (ms.filter (·.position == position)).map (·.marker)

/-- The first position whose markers stand in front of no instruction.  Regions may end with the
code: there, nothing but ends is wanted. -/
def firstMisplaced? (codeSize : Nat) (offsets : List Nat) (ms : List PlacedMarker) : Option Nat :=
  (ms.find? fun m =>
    !(m.position == codeSize && (at? m.position ms).all (· matches .endTry))
      && !offsets.contains m.position).map (·.position)

end PlacedMarker

end MethodWeave
