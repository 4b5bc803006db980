/-!
Hexadecimal numerals: a natural number in base sixteen, padded with zeros to a least number of
places.  Offsets and tokens are printed in lower case, label numbers in upper case.
-/

namespace MethodWeave.Text

/-- `digits`, with zeros in front up to `width` places. -/
def padZeros (width : Nat) (digits : List Char) : List Char :=
  List.replicate (width - digits.length) '0' ++ digits

/-- Padding never shortens, and reaches the width asked for. -/
@[simp] theorem length_padZeros (width : Nat) (digits : List Char) :
    (padZeros width digits).length = max width digits.length := by
  simp [padZeros]
  omega

/-- `n` in base sixteen with lower-case digits, at least `width` of them. -/
def hex (width n : Nat) : String :=
  String.ofList (padZeros width (Nat.toDigits 16 n))

/-- `n` in base sixteen with upper-case digits, at least `width` of them. -/
def hexUpper (width n : Nat) : String :=
  String.ofList (padZeros width ((Nat.toDigits 16 n).map Char.toUpper))

end MethodWeave.Text
