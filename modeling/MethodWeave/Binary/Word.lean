import MethodWeave.Binary.Format
/-!
Floating-point words as they stand in code: 32 or 64 bits, payloads of NaNs included.

Two words are the same constant if their bits agree (`=`), but they compare as numbers (`==`): the
zeros are equal and a NaN differs from everything, itself included.
-/

namespace MethodWeave

/-- A 32-bit floating-point constant. -/
structure Binary32 where
  bits : UInt32
deriving DecidableEq, Repr, Inhabited

/-- A 64-bit floating-point constant. -/
structure Binary64 where
  bits : UInt64
deriving DecidableEq, Repr, Inhabited

namespace Binary

/-- Equality of the numbers that two data stand for.  Words of one format that stand for the same
nonzero number decode to the same fields. -/
def Datum.sameNumber : Datum → Datum → Bool
  | .infinite s, .infinite t => s == t
  | .finite s m q, .finite t n r => (m == 0 && n == 0) || (s == t && m == n && q == r)
  | _, _ => false

end Binary

namespace Binary32

def datum (x : Binary32) : Binary.Datum := Binary.Format.single.decode x.bits.toNat

instance : BEq Binary32 := ⟨fun x y => x.datum.sameNumber y.datum⟩

end Binary32

namespace Binary64

def datum (x : Binary64) : Binary.Datum := Binary.Format.double.decode x.bits.toNat

instance : BEq Binary64 := ⟨fun x y => x.datum.sameNumber y.datum⟩

end Binary64

end MethodWeave
