import MethodWeave.Log
import MethodWeave.Text.Blank
import MethodWeave.Text.Hex
/-!
Print modes: what a commit writes to the log.

A print mode is a set of flags.  Its text lists the flags that are set by name, with a bar
between them; bits that have no name follow as one hexadecimal number.  Reading the text accepts
the names and numbers in any order, with any blanks around them.
-/

namespace MethodWeave

/-- What a commit writes to the log at the level for information, as a set of eight bits. -/
structure PrintMode where
  bits : UInt8 := 0
deriving DecidableEq, Repr, Inhabited

namespace PrintMode

/-- Labels and locals allocated while a body is emitted. -/
def emitted : PrintMode := ⟨1⟩

/-- The listing that the transpilers start from. -/
def before : PrintMode := ⟨2⟩

/-- The listing that the transpilers end with. -/
def after : PrintMode := ⟨4⟩

/-- The flags that have names, by increasing bit. -/
def named : List (String × PrintMode) :=
  [("EMITTED", emitted), ("ORIGINAL", before), ("PATCHED", after)]

/-- All flags that have names. -/
def all : PrintMode := ⟨7⟩

def isEmpty (m : PrintMode) : Bool := m.bits == 0

def union (m n : PrintMode) : PrintMode := ⟨m.bits ||| n.bits⟩

/-- Are all bits of `n` set in `m`? -/
def contains (m n : PrintMode) : Bool := m.bits &&& n.bits == n.bits

/-- The named flags that are set. -/
def names (m : PrintMode) : List String :=
  (named.filter fun (_, flag) => m.contains flag).map (·.1)

/-- The bits that have no name. -/
def unnamed (m : PrintMode) : UInt8 := m.bits &&& (255 - all.bits)

/-- The names of the flags that are set, and the other bits as a number. -/
def text (m : PrintMode) : String :=
  " | ".intercalate
    (m.names ++ if m.unnamed == 0 then [] else ["0x" ++ Text.hex 1 m.unnamed.toNat])

/-! ### Reading -/

/-- The value of a hexadecimal digit of either case. -/
def hexDigit? (c : Char) : Option Nat :=
  if '0' ≤ c ∧ c ≤ '9' then some (c.toNat - '0'.toNat)
  else if 'a' ≤ c ∧ c ≤ 'f' then some (c.toNat - 'a'.toNat + 10)
  else if 'A' ≤ c ∧ c ≤ 'F' then some (c.toNat - 'A'.toNat + 10)
  else none

/-- A number of eight bits in hexadecimal digits, at least one of them, behind an optional plus. -/
def hexByte? (s : List Char) : Option UInt8 :=
  let digits := match s with
    | '+' :: rest => rest
    | _ => s
  if digits.isEmpty then none
  else do
    let ds ← digits.mapM hexDigit?
    let n := ds.foldl (fun n d => 16 * n + d) 0
    if n < 256 then some (UInt8.ofNat n) else none

/-- One item of a text: a number or the name of a flag. -/
def ofItem? (item : List Char) : Option PrintMode :=
  match Text.trim item with
  | '0' :: 'x' :: digits => (hexByte? digits).map PrintMode.mk
  | name => (named.find? fun (n, _) => n.toList == name).map (·.2)

/-- The parts of a text between bars. -/
def splitBars : List Char → List (List Char)
  | [] => [[]]
  | '|' :: rest => [] :: splitBars rest
  | c :: rest =>
    match splitBars rest with
    | [] => [[c]]
    | item :: items => (c :: item) :: items

/-- Read a print mode; a text of blanks is the empty set, an empty or unknown item an error. -/
def ofText? (s : String) : Option PrintMode :=
  if (Text.trim s.toList).isEmpty then some {}
  else do
    let items ← (splitBars s.toList).mapM ofItem?
    return items.foldl union {}

/-! ### Levels -/

/-- The level of messages about the course of a commit. -/
def logLevel (m : PrintMode) : Level := if m.isEmpty then .debug else .info

/-- The level of messages about allocations. -/
def emitLevel (m : PrintMode) : Level := if m.contains emitted then .info else .debug

end PrintMode

end MethodWeave
