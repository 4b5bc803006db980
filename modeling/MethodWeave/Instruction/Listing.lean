import MethodWeave.Instruction.Basic
/-!
Listings: instructions one to a line, with exception regions shown as nested blocks.
-/

namespace MethodWeave

namespace Listing

/-- A line with two blanks in front for every block around it. -/
def line (depth : Nat) (text : String) : String :=
  String.ofList (List.replicate (2 * depth) ' ') ++ text ++ "\n"

/-- The words of a marker. -/
def markerText : Marker → String
  | .beginTry => ".try \x7b"
  | .beginCatch (some t) => "\x7d catch " ++ t.text ++ " \x7b"
  | .beginCatch none => "\x7d catch \x7b"
  | .beginFinally => "\x7d finally \x7b"
  | .beginFault => "\x7d fault \x7b"
  | .endTry => "\x7d"

/-- The depth behind a marker. -/
def depthAfter (depth : Nat) : Marker → Nat
  | .beginTry => depth + 1
  | .endTry => depth - 1
  | _ => depth

/-- The line of a marker.  All but the beginning of a region stand one level out. -/
def markerLine (depth : Nat) (m : Marker) : String :=
  match m with
  | .beginTry => line depth (markerText m)
  | _ => line (depth - 1) (markerText m)

/-- Lines of markers, and the depth behind them. -/
def markerLines (depth : Nat) : List Marker → List String × Nat
  | [] => ([], depth)
  | m :: rest =>
    let (lines, last) := markerLines (depthAfter depth m) rest
    (markerLine depth m :: lines, last)

/-- Lines of instructions from a given depth on. -/
def linesFrom (depth : Nat) : List Instruction → List String
  | [] => []
  | i :: rest =>
    let (lines, depth) := markerLines depth i.markers
    lines ++ line depth i.text :: linesFrom depth rest

end Listing

/-- The listing of a list of instructions. -/
def listing (instructions : List Instruction) : String :=
  String.join (Listing.linesFrom 0 instructions)

end MethodWeave
