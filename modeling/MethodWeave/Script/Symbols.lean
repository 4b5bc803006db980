import MethodWeave.Metadata
/-!
Members of a module under short keys, and the declarations that make them.

A declaration adds a member to the tables, or builds one under a token of its own, and lets a key
stand for it; a key that is declared again stands for the newer member.  Each kind of member has
its own keys.
-/

namespace MethodWeave.Script

/-- What keys stand for, the newest first. -/
structure Symbols where
  types : List (String × TypeRef) := []
  methods : List (String × MethodRef) := []
  fields : List (String × FieldRef) := []
  signatures : List (String × Signature) := []
deriving Inhabited

/-- The member of a key: a method, else a field, else a type. -/
def Symbols.member? (s : Symbols) (key : String) : Option Member :=
  ((s.methods.lookup key).map .method).or
    (((s.fields.lookup key).map .field).or ((s.types.lookup key).map .type))

/-- How a member comes by its token. -/
inductive Placement where
  /-- The next row of its table. -/
  | nextRow
  /-- A token of its own; the member is registered or not. -/
  | own (token : Token) (register : Bool)
deriving Repr, Inhabited

/-- One declaration. -/
inductive Declaration where
  | type (key name : String) (placement : Placement)
  | method (key name : String) (declaringType : TypeRef) (parameters : List TypeRef)
      (returnType : Option TypeRef) (isStatic : Bool) (placement : Placement)
  | field (key name : String) (declaringType fieldType : TypeRef) (isStatic : Bool)
      (placement : Placement)
  /-- A signature under a token of its own is not registered. -/
  | signature (key : String) (blob : List UInt8) (placement : Placement)
  | string (value : String)
deriving Repr, Inhabited

namespace Declaration

/-- Register a member that has a token of its own, if that is wanted. -/
def file (m : Member) (register : Bool) (tables : MetadataTables) : MetadataTables :=
  if register then tables.register m else tables

/-- Make a declaration; the answer is the token of what was declared. -/
def declare (symbols : Symbols) (tables : MetadataTables) :
    Declaration → Token × Symbols × MetadataTables
  | .type key name .nextRow =>
    let (t, tables) := tables.addType name
    (t.token, { symbols with types := (key, t) :: symbols.types }, tables)
  | .type key name (.own token register) =>
    let t : TypeRef := ⟨token, name⟩
    (token, { symbols with types := (key, t) :: symbols.types }, file (.type t) register tables)
  | .method key name declaringType parameters returnType isStatic .nextRow =>
    let (m, tables) := tables.addMethod declaringType name parameters returnType isStatic
    (m.token, { symbols with methods := (key, m) :: symbols.methods }, tables)
  | .method key name declaringType parameters returnType isStatic (.own token register) =>
    let m : MethodRef := ⟨token, declaringType, name, parameters, returnType, isStatic⟩
    (token, { symbols with methods := (key, m) :: symbols.methods },
      file (.method m) register tables)
  | .field key name declaringType fieldType isStatic .nextRow =>
    let (f, tables) := tables.addField declaringType name fieldType isStatic
    (f.token, { symbols with fields := (key, f) :: symbols.fields }, tables)
  | .field key name declaringType fieldType isStatic (.own token register) =>
    let f : FieldRef := ⟨token, declaringType, name, fieldType, isStatic⟩
    (token, { symbols with fields := (key, f) :: symbols.fields },
      file (.field f) register tables)
  | .signature key blob .nextRow =>
    let (s, tables) := tables.addSignature blob
    (s.token, { symbols with signatures := (key, s) :: symbols.signatures }, tables)
  | .signature key blob (.own token _) =>
    (token, { symbols with signatures := (key, ⟨token, blob⟩) :: symbols.signatures }, tables)
  | .string value =>
    let (token, tables) := tables.intern value
    (token, symbols, tables)

end Declaration

end MethodWeave.Script
