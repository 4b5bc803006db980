import MethodWeave.Binary.Double
import MethodWeave.Decimal.Literal
import MethodWeave.Member
import MethodWeave.Text.Quoted
/-!
Values that executing code computes with.  All floating-point values are doubles.
-/

namespace MethodWeave

/-- A value on the evaluation stack, in an argument slot or in a local slot. -/
inductive Value where
  | null
  | int32 (v : Int32)
  | int64 (v : Int64)
  | float (v : Float)
  | string (v : String)
deriving Inhabited

namespace Value

/-- Truth values are the integers one and zero. -/
def ofBool (b : Bool) : Value := .int32 (if b then 1 else 0)

/-- The names of the types whose zero is a 32-bit integer. -/
def smallIntegerTypes : List String :=
  ["System.Boolean", "System.Byte", "System.SByte", "System.Int16", "System.UInt16",
    "System.Int32", "System.UInt32", "System.Char"]

/-- What a local of a named type starts with. -/
def zeroOf (typeName : String) : Value :=
  if smallIntegerTypes.contains typeName then .int32 0
  else if typeName = "System.Int64" ∨ typeName = "System.UInt64" then .int64 0
  else if typeName = "System.Single" ∨ typeName = "System.Double" then .float 0
  else .null

/-- The name of the value's type. -/
def typeName : Value → String
  | .null => "null"
  | .int32 _ => "int32"
  | .int64 _ => "int64"
  | .float _ => "float"
  | .string _ => "string"

/-- Does the value count as true?  Numbers do unless they are zero, strings always. -/
def isTruthy : Value → Bool
  | .null => false
  | .int32 v => v != 0
  | .int64 v => v != 0
  | .float v => v != 0
  | .string _ => true

def int32? : Value → Option Int32
  | .int32 v => some v
  | _ => none

def string? : Value → Option String
  | .string v => some v
  | _ => none

/-- A value in messages: 64-bit integers are told apart by a letter, strings are quoted. -/
def text : Value → String
  | .null => "null"
  | .int32 v => toString v.toInt
  | .int64 v => toString v.toInt ++ "L"
  | .float v => Decimal.literal .double (Double.datum v)
  | .string v => Text.quoted v

end Value

end MethodWeave
