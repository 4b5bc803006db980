import MethodWeave.Binary.Format
/-!
The shortest decimal of a floating-point number: the fewest digits that read back as it, and of
those the nearest to it.

The reals that round to a number form an interval around it.  `shortest` looks at ever finer
decimal grids; on each it tests the two neighbours of the number, and the first grid on which one
of them lies in the interval gives the answer.  A number half way between two such neighbours takes
the upper one.  Everything is compared by cross-multiplication, so no step rounds.
-/

namespace MethodWeave

/-- The number `digits · 10 ^ exponent`. -/
structure Decimal where
  digits : Nat
  exponent : Int
deriving DecidableEq, Repr

namespace Decimal

/-- A number with the interval of reals that round to it, all over one denominator. -/
structure Neighbourhood where
  low : Nat
  value : Nat
  high : Nat
  denominator : Nat
  /-- Do the ends of the interval still round to the number? -/
  closed : Bool

/-- The neighbourhood of `m · 2 ^ q`.  Below a power of two the next number is half as far away;
the ends round to the number when its significand is even. -/
def neighbourhood (f : Binary.Format) (m : Nat) (q : Int) : Neighbourhood :=
  { low := (4 * m - (if m = 1 <<< f.fractionBits then 1 else 2)) <<< (q - 2).toNat
    value := (4 * m) <<< (q - 2).toNat
    high := (4 * m + 2) <<< (q - 2).toNat
    denominator := 1 <<< (2 - q).toNat
    closed := m % 2 = 0 }

namespace Neighbourhood

variable (n : Neighbourhood)

/-- Does the interval reach down to `num / den`? -/
def reachesDown (num den : Nat) : Bool :=
  if n.closed then n.low * den ≤ num * n.denominator else n.low * den < num * n.denominator

/-- Does the interval reach up to `num / den`? -/
def reachesUp (num den : Nat) : Bool :=
  if n.closed then num * n.denominator ≤ n.high * den else num * n.denominator < n.high * den

/-- The neighbour on the grid of multiples of `10 ^ exponent` that reads back, the nearer if both
do. -/
def onGrid? (exponent : Int) : Option Decimal :=
  let up := Nat.pow 10 exponent.toNat
  let den := Nat.pow 10 (-exponent).toNat
  let floor := n.value * den / (n.denominator * up)
  let below := n.reachesDown (floor * up) den
  let above := n.reachesUp ((floor + 1) * up) den
  let aboveIsNearer := (2 * floor + 1) * up * n.denominator ≤ 2 * n.value * den
  if above && (!below || aboveIsNearer) then some ⟨floor + 1, exponent⟩
  else if below then some ⟨floor, exponent⟩
  else none

/-- Digits before the decimal point of a number below one: minus the count of zeros after it. -/
def leadingZeros : Nat → Nat → Nat → Nat
  | 0, _, _ => 0
  | fuel + 1, num, den => if 10 * num < den then leadingZeros fuel (10 * num) den + 1 else 0

/-- The place `k` with `10 ^ (k - 1) ≤ value < 10 ^ k`. -/
def magnitude : Int :=
  if n.value < n.denominator then -(leadingZeros 400 n.value n.denominator : Int)
  else (Nat.toDigits 10 (n.value / n.denominator)).length

/-- The first hit on grids of `count`, `count + 1`, … significant digits. -/
def search (k : Int) : Nat → Nat → Decimal
  | 0, _ => ⟨0, 0⟩
  | fuel + 1, count =>
    match n.onGrid? (k - count) with
    | some d => d
    | none => search k fuel (count + 1)

end Neighbourhood

/-- The shortest decimal of the positive number `m · 2 ^ q`. Seventeen digits always suffice for
64 bits, nine for 32. -/
def shortest (f : Binary.Format) (m : Nat) (q : Int) : Decimal :=
  let n := neighbourhood f m q
  n.search n.magnitude 20 1

/-- Drop trailing zeros from a list of digits that is given last digit first. -/
def trimZeros : List Char → List Char
  | '0' :: rest => trimZeros rest
  | digits => digits

/-- The significant digits of a decimal and the place of its point: the number is `0.ddd · 10 ^ p`.
-/
def significant (d : Decimal) : List Char × Int :=
  let all := Nat.toDigits 10 d.digits
  ((trimZeros all.reverse).reverse, all.length + d.exponent)

end Decimal

end MethodWeave
