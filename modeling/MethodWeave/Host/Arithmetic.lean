import MethodWeave.Host.Operation
import MethodWeave.Host.Value
/-!
Arithmetic, comparison and conversion of values.

Two operands have to be of one numeric type; otherwise the one that is out of place is named: the
second if the first is a number, else the first.  Integers wrap around.  Division reports a zero
divisor and the one quotient that does not fit.  Strings and null can be tested for equality among
themselves only.
-/

namespace MethodWeave

/-- Why an operation on values has no result. -/
inductive ValueError where
  /-- A value of this type cannot be worked on. -/
  | mismatch (found : Value)
  /-- Division by zero, or a quotient out of range. -/
  | undefined
deriving Inhabited

namespace Value

/-- Is the value a number? -/
def isNumber : Value → Bool
  | .int32 _ | .int64 _ | .float _ => true
  | .null | .string _ => false

/-- Of two operands that do not go together, the one that is out of place. -/
def misfit (a b : Value) : Value := if a.isNumber then b else a

end Value

namespace BinaryOp

/-- On 32-bit integers; `none` where the result is undefined. -/
def onInt32 (x y : Int32) : BinaryOp → Option Int32
  | .add => some (x + y)
  | .sub => some (x - y)
  | .mul => some (x * y)
  | .div => if y = 0 ∨ (x = Int32.minValue ∧ y = -1) then none else some (x / y)
  | .rem => if y = 0 ∨ (x = Int32.minValue ∧ y = -1) then none else some (x % y)
  | .divUnsigned => if y = 0 then none else some (x.toUInt32 / y.toUInt32).toInt32
  | .remUnsigned => if y = 0 then none else some (x.toUInt32 % y.toUInt32).toInt32
  | .and => some (x &&& y)
  | .or => some (x ||| y)
  | .xor => some (x ^^^ y)

/-- On 64-bit integers; `none` where the result is undefined. -/
def onInt64 (x y : Int64) : BinaryOp → Option Int64
  | .add => some (x + y)
  | .sub => some (x - y)
  | .mul => some (x * y)
  | .div => if y = 0 ∨ (x = Int64.minValue ∧ y = -1) then none else some (x / y)
  | .rem => if y = 0 ∨ (x = Int64.minValue ∧ y = -1) then none else some (x % y)
  | .divUnsigned => if y = 0 then none else some (x.toUInt64 / y.toUInt64).toInt64
  | .remUnsigned => if y = 0 then none else some (x.toUInt64 % y.toUInt64).toInt64
  | .and => some (x &&& y)
  | .or => some (x ||| y)
  | .xor => some (x ^^^ y)

/-- On doubles; `none` for the operations that only integers have. -/
def onFloat (x y : Float) : BinaryOp → Option Float
  | .add => some (x + y)
  | .sub => some (x - y)
  | .mul => some (x * y)
  | .div => some (x / y)
  | .rem => some (Double.remainder x y)
  | .divUnsigned | .remUnsigned | .and | .or | .xor => none

/-- On values. -/
def apply (op : BinaryOp) (a b : Value) : Except ValueError Value :=
  match a, b with
  | .int32 x, .int32 y =>
    match op.onInt32 x y with
    | some z => .ok (.int32 z)
    | none => .error .undefined
  | .int64 x, .int64 y =>
    match op.onInt64 x y with
    | some z => .ok (.int64 z)
    | none => .error .undefined
  | .float x, .float y =>
    match op.onFloat x y with
    | some z => .ok (.float z)
    | none => .error (.mismatch a)
  | a, b => .error (.mismatch (a.misfit b))

end BinaryOp

/-- Shift an integer; of the amount only as many low bits count as the width calls for. -/
def ShiftOp.apply (op : ShiftOp) (value amount : Value) : Except ValueError Value :=
  match amount with
  | .int32 n =>
    match op, value with
    | .left, .int32 x => .ok (.int32 (x <<< n))
    | .right, .int32 x => .ok (.int32 (x >>> n))
    | .rightUnsigned, .int32 x => .ok (.int32 (x.toUInt32 >>> n.toUInt32).toInt32)
    | .left, .int64 x => .ok (.int64 (x <<< n.toInt64))
    | .right, .int64 x => .ok (.int64 (x >>> n.toInt64))
    | .rightUnsigned, .int64 x => .ok (.int64 (x.toUInt64 >>> n.toInt64.toUInt64).toInt64)
    | _, other => .error (.mismatch other)
  | other => .error (.mismatch other)

namespace Value

def negate : Value → Except ValueError Value
  | .int32 x => .ok (.int32 (-x))
  | .int64 x => .ok (.int64 (-x))
  | .float x => .ok (.float (-x))
  | other => .error (.mismatch other)

def complement : Value → Except ValueError Value
  | .int32 x => .ok (.int32 (~~~x))
  | .int64 x => .ok (.int64 (~~~x))
  | other => .error (.mismatch other)

/-- Convert a number.  A double loses its fraction and is held within the range of the integer
type; a single is rounded once, whatever it comes from. -/
def convert (type : NumericType) (v : Value) : Except ValueError Value :=
  match type, v with
  | .int32, .int32 x => .ok (.int32 x)
  | .int32, .int64 x => .ok (.int32 x.toInt32)
  | .int32, .float x =>
    .ok (.int32 (Int32.ofInt
      (Double.truncateWithin Int32.minValue.toInt Int32.maxValue.toInt (Double.datum x))))
  | .int64, .int32 x => .ok (.int64 x.toInt64)
  | .int64, .int64 x => .ok (.int64 x)
  | .int64, .float x =>
    .ok (.int64 (Int64.ofInt
      (Double.truncateWithin Int64.minValue.toInt Int64.maxValue.toInt (Double.datum x))))
  | .single, .int32 x => .ok (.float (Double.throughSingle (Double.datumOfInt x.toInt)))
  | .single, .int64 x => .ok (.float (Double.throughSingle (Double.datumOfInt x.toInt)))
  | .single, .float x => .ok (.float (Double.throughSingle (Double.datum x)))
  | .double, .int32 x => .ok (.float (Double.ofInt x.toInt))
  | .double, .int64 x => .ok (.float (Double.ofInt x.toInt))
  | .double, .float x => .ok (.float x)
  | _, other => .error (.mismatch other)

/-! ### Comparison -/

/-- How two numbers of one type compare; `none` if one of them is a NaN. -/
def compare? (a b : Value) (isUnsigned : Bool) : Except ValueError (Option Ordering) :=
  match a, b with
  | .int32 x, .int32 y =>
    .ok (some (if isUnsigned then compare x.toUInt32 y.toUInt32 else compare x.toInt y.toInt))
  | .int64 x, .int64 y =>
    .ok (some (if isUnsigned then compare x.toUInt64 y.toUInt64 else compare x.toInt y.toInt))
  | .float x, .float y =>
    .ok (if x < y then some .lt else if y < x then some .gt else if x == y then some .eq else none)
  | a, b => .error (.mismatch (a.misfit b))

/-- Are two values equal?  Null and strings may be compared with each other. -/
def equals (a b : Value) : Except ValueError Bool :=
  match a, b with
  | .null, .null => .ok true
  | .string s, .string t => .ok (s == t)
  | .null, .string _ | .string _, .null => .ok false
  | a, b => (a.compare? b false).map fun o => o == some .eq

end Value

namespace Relation

/-- Does a relation hold of two values that compare like this? -/
def holds : Relation → Ordering → Bool
  | .less, o => o == .lt
  | .lessEqual, o => o != .gt
  | .greater, o => o == .gt
  | .greaterEqual, o => o != .lt

/-- Does a relation hold of two values?  The unsigned form of a relation holds of unordered ones. -/
def test (r : Relation) (isUnsigned : Bool) (a b : Value) : Except ValueError Bool :=
  (a.compare? b isUnsigned).map fun
    | some o => r.holds o
    | none => isUnsigned

end Relation

end MethodWeave
