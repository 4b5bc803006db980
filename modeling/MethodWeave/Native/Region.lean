import MethodWeave.Code.Payload
/-!
From region markers to an exception table.

Markers are read in stream order with a stack of open regions.  A region is a try block followed
without gap by its handlers; when it ends, its clauses go to the table, so the clauses of an inner
region stand before those of the region around it.  Regions whose handler is open at the end of the
stream end with the code.
-/

namespace MethodWeave

/-- A region that has begun and not yet ended. -/
structure OpenRegion where
  tryStart : Nat
  /-- The end of the try block, once a handler has begun. -/
  tryEnd? : Option Nat := none
  /-- The handler in progress and where it began. -/
  handler? : Option (ClauseKind × Nat) := none
  /-- Finished handlers with their ends. -/
  finished : List (ClauseKind × Nat × Nat) := []

namespace OpenRegion

/-- End the try block or the handler in progress at `position`. -/
def closePart (r : OpenRegion) (position : Nat) : OpenRegion :=
  { r with
    tryEnd? := some (r.tryEnd?.getD position)
    handler? := none
    finished := match r.handler? with
      | some (kind, start) => r.finished ++ [(kind, start, position)]
      | none => r.finished }

/-- The clauses of a region whose parts are all closed; a region needs a handler. -/
def clauses? (r : OpenRegion) : Option (List Clause) :=
  match r.tryEnd? with
  | none => none
  | some tryEnd =>
    if r.finished.isEmpty then none
    else some (r.finished.map fun (kind, start, stop) =>
      { kind := kind
        tryOffset := UInt32.ofNat r.tryStart
        tryLength := UInt32.ofNat (tryEnd - r.tryStart)
        handlerOffset := UInt32.ofNat start
        handlerLength := UInt32.ofNat (stop - start) })

end OpenRegion

/-- Open regions, innermost first, and the table so far. -/
structure RegionScan where
  regions : List OpenRegion := []
  clauses : List Clause := []

namespace RegionScan

/-- Take in one marker at a code offset; `none` if it belongs to no region. -/
def mark (s : RegionScan) (position : Nat) (m : Marker) : Option RegionScan :=
  match m, s.regions with
  | .beginTry, regions => some { s with regions := { tryStart := position } :: regions }
  | _, [] => none
  | m, region :: outer =>
    let closed := region.closePart position
    match m.handler? with
    | some kind => some { s with regions := { closed with handler? := some (kind, position) } :: outer }
    | none => closed.clauses?.map fun cs => { regions := outer, clauses := s.clauses ++ cs }

/-- End every region at the end of the code; `none` if one has no handler in progress. -/
def finish (stop : Nat) (clauses : List Clause) : List OpenRegion → Option (List Clause)
  | [] => some clauses
  | region :: outer =>
    if region.handler?.isNone then none
    else (region.closePart stop).clauses?.bind fun cs => finish stop (clauses ++ cs) outer

end RegionScan

/-- The exception table of a stream given as code offsets with markers; the error is the index of
the instruction with a marker out of place, or the length of the stream. -/
def clausesFrom (stop : Nat) (index : Nat) (s : RegionScan) :
    List (Nat × List Marker) → Except Nat (List Clause)
  | [] =>
    match RegionScan.finish stop s.clauses s.regions with
    | some clauses => .ok clauses
    | none => .error index
  | (position, markers) :: rest =>
    match markers.foldlM (fun s m => s.mark position m) s with
    | some s => clausesFrom stop (index + 1) s rest
    | none => .error index

end MethodWeave
