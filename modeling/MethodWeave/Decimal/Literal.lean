import MethodWeave.Decimal.Shortest
/-!
The text of a floating-point constant.  It has the shortest digits that read back; it is positional
with at least one digit on each side of the point from one ten-thousandth up to ten to the
sixteenth, and outside of that range scientific, with no padding.
-/

namespace MethodWeave.Decimal

/-- Digits with the point after the first `p` of them, where `p` may lie outside. -/
def positional (digits : List Char) (p : Int) : List Char :=
  if p ≤ 0 then '0' :: '.' :: (List.replicate (-p).toNat '0' ++ digits)
  else
    let n := p.toNat
    let whole := digits.take n ++ List.replicate (n - digits.length) '0'
    let part := digits.drop n
    whole ++ '.' :: (if part.isEmpty then ['0'] else part)

/-- One digit before the point, the others after it, and the power of ten. -/
def scientific (digits : List Char) (p : Int) : List Char :=
  let mantissa := match digits with
    | [] => ['0']
    | [d] => [d]
    | d :: rest => d :: '.' :: rest
  mantissa ++ 'e' :: (toString (p - 1)).toList

/-- The text of a positive decimal. -/
def text (d : Decimal) : List Char :=
  let (digits, p) := d.significant
  if p > 16 || p < -3 then scientific digits p else positional digits p

/-- The text of what a word of format `f` stands for.  A NaN shows neither sign nor payload. -/
def literal (f : Binary.Format) : Binary.Datum → String
  | .nan => "NaN"
  | .infinite negative => if negative then "-inf" else "inf"
  | .finite negative m q =>
    let magnitude := if m = 0 then ['0', '.', '0'] else (shortest f m q).text
    String.ofList (if negative then '-' :: magnitude else magnitude)

end MethodWeave.Decimal
