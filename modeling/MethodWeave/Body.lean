import MethodWeave.Member
/-!
Method bodies: code bytes, the types of the local slots, and the exception table.
-/

namespace MethodWeave

/-- What the handler of a clause does. -/
inductive ClauseKind where
  /-- Handles exceptions of one type, or all of them. -/
  | catching (type? : Option TypeRef)
  | finally
  | fault
deriving BEq, Repr, Inhabited

/-- One row of an exception table.  Offsets and lengths are in bytes. -/
structure Clause where
  kind : ClauseKind
  tryOffset : UInt32
  tryLength : UInt32
  handlerOffset : UInt32
  handlerLength : UInt32
deriving BEq, Repr, Inhabited

namespace Clause

/-- The sum of an offset and a length, held at the largest word if it does not fit. -/
def clampedEnd (offset length : UInt32) : Nat := min (offset.toNat + length.toNat) 0xffffffff

/-- The first offset behind the try block. -/
def tryEnd (c : Clause) : Nat := clampedEnd c.tryOffset c.tryLength

/-- The first offset behind the handler. -/
def handlerEnd (c : Clause) : Nat := clampedEnd c.handlerOffset c.handlerLength

end Clause

/-- An encoded method body. -/
structure Body where
  code : List UInt8
  locals : List TypeRef := []
  clauses : List Clause := []
deriving BEq, Repr, Inhabited

end MethodWeave
