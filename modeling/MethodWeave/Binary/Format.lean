/-!
Binary floating-point interchange formats: how a word of bits stands for a number.

A finite word stands for `m · 2 ^ q` with a sign.  `Format.decode` reads a word, and
`Format.encode` writes the word nearest to an exact `m · 2 ^ q`, a half going to the even
significand.  All arithmetic is on natural numbers, so every conversion built from the two is
exact up to its single rounding.
-/

namespace MethodWeave.Binary

/-- Widths of the two stored fields of a format; the sign takes one more bit. -/
structure Format where
  /-- Stored bits of the significand, without the leading one of a normal number. -/
  fractionBits : Nat
  exponentBits : Nat
deriving DecidableEq, Repr

/-- The 32-bit format. -/
def Format.single : Format := ⟨23, 8⟩

/-- The 64-bit format. -/
def Format.double : Format := ⟨52, 11⟩

/-- What a word stands for. -/
inductive Datum where
  | nan
  | infinite (negative : Bool)
  /-- The number `m · 2 ^ q`, negated if `negative`.  Zero has `m = 0` and keeps its sign. -/
  | finite (negative : Bool) (m : Nat) (q : Int)
deriving DecidableEq, Repr

namespace Format

variable (f : Format)

/-- The exponent field of infinities and NaNs. -/
def topExponent : Nat := 1 <<< f.exponentBits - 1

/-- The exponent of the last place of the smallest normal number, shared by all subnormals. -/
def lowestPlace : Int := 2 - (1 <<< (f.exponentBits - 1) : Nat) - f.fractionBits

/-- The word with the given fields. -/
def assemble (negative : Bool) (exponent fraction : Nat) : Nat :=
  (if negative then 1 <<< (f.exponentBits + f.fractionBits) else 0)
    + exponent <<< f.fractionBits + fraction

/-- Read a word; bits above the sign are ignored. -/
def decode (word : Nat) : Datum :=
  let fraction := word % 1 <<< f.fractionBits
  let exponent := (word >>> f.fractionBits) % (1 <<< f.exponentBits)
  let negative := (word >>> (f.fractionBits + f.exponentBits)) % 2 == 1
  if exponent = f.topExponent then
    if fraction = 0 then .infinite negative else .nan
  else if exponent = 0 then .finite negative fraction f.lowestPlace
  else .finite negative (1 <<< f.fractionBits + fraction) (f.lowestPlace + (exponent - 1 : Nat))

end Format

/-- `num / den` to the nearest integer, a half going to the even neighbour. -/
def roundHalfEven (num den : Nat) : Nat :=
  let quotient := num / den
  let twice := 2 * (num % den)
  if twice > den then quotient + 1
  else if twice = den then quotient + quotient % 2
  else quotient

/-- The significand of `m · 2 ^ q` counted in units of `2 ^ place`. -/
def significandAt (m : Nat) (q place : Int) : Nat :=
  if place ≤ q then m <<< (q - place).toNat
  else roundHalfEven m (1 <<< (place - q).toNat)

namespace Format

variable (f : Format)

/-- The word nearest to `m · 2 ^ q`.  A significand that rounds up to the next power of two
carries into the exponent field by itself. -/
def encodeFinite (negative : Bool) (m : Nat) (q : Int) : Nat :=
  if m = 0 then f.assemble negative 0 0
  else
    let place := max (q + Nat.log2 m - f.fractionBits) f.lowestPlace
    let s := significandAt m q place
    if s < 1 <<< f.fractionBits then f.assemble negative 0 s
    else
      let field := (place - f.lowestPlace).toNat + 1
      let magnitude := field <<< f.fractionBits + (s - 1 <<< f.fractionBits)
      if magnitude ≥ f.topExponent <<< f.fractionBits then
        f.assemble negative f.topExponent 0
      else f.assemble negative 0 magnitude

/-- The word for a datum; the NaN written is the quiet one without payload. -/
def encode : Datum → Nat
  | .nan => f.assemble false f.topExponent (1 <<< (f.fractionBits - 1))
  | .infinite negative => f.assemble negative f.topExponent 0
  | .finite negative m q => f.encodeFinite negative m q

end Format

end MethodWeave.Binary
