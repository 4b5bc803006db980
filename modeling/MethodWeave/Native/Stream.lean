import MethodWeave.Code.Payload
import MethodWeave.Opcode.Table
/-!
The native form of a method body: a stream of instructions whose jumps go to numbered labels, and
the generator that hands out labels and local slots for it.
-/

namespace MethodWeave

/-- A jump target of a native stream. -/
structure NativeLabel where
  number : Nat
deriving DecidableEq, Repr, Inhabited

def NativeLabel.text (l : NativeLabel) : String := "#" ++ toString l.number

/-- One native instruction, with the labels that mark it and the markers in front of it. -/
structure NativeInstruction where
  opcode : Opcode
  operand : Payload NativeLabel := .none
  labels : List NativeLabel := []
  markers : List Marker := []
deriving BEq, Repr, Inhabited

/-- Labels handed out and local slots declared so far for one body.  Labels are numbered without a
limit, which agrees with 32 bits below `2 ^ 32`. -/
structure Generator where
  nextLabel : Nat := 0
  locals : List TypeRef := []
deriving Repr, Inhabited

namespace Generator

/-- A generator for a body that already has local slots. -/
def withLocals (locals : List TypeRef) : Generator := { locals := locals }

/-- A label not handed out before. -/
def defineLabel (g : Generator) : NativeLabel × Generator :=
  (⟨g.nextLabel⟩, { g with nextLabel := g.nextLabel + 1 })

/-- A further local slot.  Slot numbers have 16 bits; a later slot's number loses its high bits. -/
def declareLocal (g : Generator) (type : TypeRef) : Local × Generator :=
  (⟨UInt16.ofNat g.locals.length, type⟩, { g with locals := g.locals ++ [type] })

/-- Several labels not handed out before. -/
def defineLabels : (count : Nat) → Generator → List NativeLabel × Generator
  | 0, g => ([], g)
  | count + 1, g =>
    let (first, g) := g.defineLabel
    let (rest, g) := defineLabels count g
    (first :: rest, g)

/-- A further local slot for each type. -/
def declareLocals : List TypeRef → Generator → List Local × Generator
  | [], g => ([], g)
  | type :: types, g =>
    let (first, g) := g.declareLocal type
    let (rest, g) := declareLocals types g
    (first :: rest, g)

end Generator

end MethodWeave
