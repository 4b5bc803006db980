import MethodWeave.Binary.Word
/-!
Conversions of doubles, and the remainder of two, each exact up to one rounding to nearest.

A double is taken apart into its sign, significand and exponent; the result is put together again
by `Binary.Format.encode`, which does the rounding.
-/

namespace MethodWeave.Double

open Binary

/-- The double of a word. -/
def ofWord (x : Binary64) : Float := Float.ofBits x.bits

/-- What a double stands for. -/
def datum (x : Float) : Datum := Format.double.decode x.toBits.toNat

/-- The double nearest to a datum. -/
def ofDatum (d : Datum) : Float := Float.ofBits (UInt64.ofNat (Format.double.encode d))

/-- The double of a 32-bit word; nothing is lost. -/
def ofSingle (x : Binary32) : Float := ofDatum x.datum

/-- The datum rounded to the 32-bit format, as a double. -/
def throughSingle (d : Datum) : Float :=
  ofDatum (Format.single.decode (Format.single.encode d))

/-- An integer as a datum. -/
def datumOfInt (n : Int) : Datum := .finite (n < 0) n.natAbs 0

/-- The double nearest to an integer. -/
def ofInt (n : Int) : Float := ofDatum (datumOfInt n)

/-- The integer part of a datum, brought into a range: an infinity and a number outside go to the
nearer end, and a NaN to zero. -/
def truncateWithin (low high : Int) : Datum → Int
  | .nan => 0
  | .infinite negative => if negative then low else high
  | .finite negative m q =>
    let magnitude : Nat := if 0 ≤ q then m <<< q.toNat else m >>> (-q).toNat
    let n : Int := if negative then -(magnitude : Int) else magnitude
    max low (min high n)

/-- The remainder of the truncated quotient; it has the sign of the dividend. -/
def remainderDatum : Datum → Datum → Datum
  | .finite s m q, .finite _ n r =>
    if n = 0 then .nan
    else
      let place := min q r
      .finite s ((m <<< (q - place).toNat) % (n <<< (r - place).toNat)) place
  | .finite s m q, .infinite _ => .finite s m q
  | _, _ => .nan

/-- The remainder of two doubles, which is exact. -/
def remainder (x y : Float) : Float := ofDatum (remainderDatum (datum x) (datum y))

end MethodWeave.Double
