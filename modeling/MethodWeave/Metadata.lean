import MethodWeave.KeyMap
import MethodWeave.Member
/-!
Metadata: what tokens stand for.

Reading code needs three look-ups, writing code may add user strings; `Metadata` is that interface.
`MetadataTables` is the metadata of a module that is built up member by member.  Each adding
operation takes the next row of its table; `register` files a member under the token it already
has and leaves the row counts alone.

User strings have a heap of their own (`StringHeap`): the strings by row, counted from one, to
resolve tokens, and beside them a map from each string to its token, to intern strings.  The tables
change their heap by interning and in no other way.
-/

namespace MethodWeave

/-- Token look-up, and the heap of user strings that writing code may extend. -/
class Metadata (μ : Type) where
  member? : μ → Token → Option Member
  signature? : μ → Token → Option Signature
  userString? : μ → Token → Option String
  /-- The token of a string, added to the heap if it is new. -/
  intern : μ → String → Token × μ

/-! ### User strings -/

/-- The strings by row, and the token of each string.  Of entries for one string the first one
counts. -/
structure StringHeap where
  strings : List String := []
  tokens : List (String × Token) := []
deriving Inhabited

namespace StringHeap

/-- The string in the row of a user-string token. -/
def userString? (heap : StringHeap) (t : Token) : Option String :=
  if t.table = Token.userStringTable ∧ t.row ≠ 0 then heap.strings[t.row - 1]? else none

/-- The token of `s`.  A string that has none is put into the next row and given its token. -/
def intern (heap : StringHeap) (s : String) : Token × StringHeap :=
  match heap.tokens.lookup s with
  | some token => (token, heap)
  | none =>
    let strings := heap.strings ++ [s]
    let token := Token.ofRow Token.userStringTable strings.length
    (token, { strings := strings, tokens := (s, token) :: heap.tokens })

/-- The heaps that interning leads to, beginning with the empty one. -/
inductive Interned : StringHeap → Prop
  | empty : Interned {}
  | intern {heap : StringHeap} (s : String) : Interned heap → Interned (heap.intern s).2

end StringHeap

/-! ### Tables -/

/-- The tables of one module. -/
structure MetadataTables extends StringHeap where
  members : KeyMap Member := {}
  signatures : KeyMap Signature := {}
  typeRows : Nat := 0
  methodRows : Nat := 0
  fieldRows : Nat := 0
  signatureRows : Nat := 0
  /-- Nothing but interning has touched the strings. -/
  interned : toStringHeap.Interned := by exact .empty

instance : Inhabited MetadataTables := ⟨{}⟩

namespace MetadataTables

/-- File a member under its own token, replacing what was there. -/
def register (tables : MetadataTables) (m : Member) : MetadataTables :=
  { tables with members := tables.members.insert m.token.key m }

/-- A new type in the next row. -/
def addType (tables : MetadataTables) (name : String) : TypeRef × MetadataTables :=
  let row := tables.typeRows + 1
  let t : TypeRef := ⟨.ofRow Token.typeDefTable row, name⟩
  (t, { tables.register (.type t) with typeRows := row })

/-- A new method in the next row. -/
def addMethod (tables : MetadataTables) (declaringType : TypeRef) (name : String)
    (parameters : List TypeRef) (returnType : Option TypeRef) (isStatic : Bool) :
    MethodRef × MetadataTables :=
  let row := tables.methodRows + 1
  let m : MethodRef :=
    ⟨.ofRow Token.methodDefTable row, declaringType, name, parameters, returnType, isStatic⟩
  (m, { tables.register (.method m) with methodRows := row })

/-- A new field in the next row. -/
def addField (tables : MetadataTables) (declaringType : TypeRef) (name : String)
    (fieldType : TypeRef) (isStatic : Bool) : FieldRef × MetadataTables :=
  let row := tables.fieldRows + 1
  let f : FieldRef := ⟨.ofRow Token.fieldTable row, declaringType, name, fieldType, isStatic⟩
  (f, { tables.register (.field f) with fieldRows := row })

/-- A new stand-alone signature in the next row. -/
def addSignature (tables : MetadataTables) (blob : List UInt8) : Signature × MetadataTables :=
  let row := tables.signatureRows + 1
  let s : Signature := ⟨.ofRow Token.signatureTable row, blob⟩
  (s, { tables with signatures := tables.signatures.insert s.token.key s, signatureRows := row })

/-- Every registered method, by increasing token. -/
def methods (tables : MetadataTables) : List MethodRef :=
  tables.members.values.filterMap Member.method?

def member? (tables : MetadataTables) (t : Token) : Option Member := tables.members.get? t.key

def signature? (tables : MetadataTables) (t : Token) : Option Signature :=
  tables.signatures.get? t.key

/-- The token of `s`, which is added to the heap if it is not there. -/
def intern (tables : MetadataTables) (s : String) : Token × MetadataTables :=
  let outcome := tables.toStringHeap.intern s
  (outcome.1, { tables with toStringHeap := outcome.2, interned := tables.interned.intern s })

instance : Metadata MetadataTables where
  member? := member?
  signature? := signature?
  userString? tables := tables.userString?
  intern := intern

end MetadataTables

end MethodWeave
