import MethodWeave.Token
/-!
References to the members of a module: types, methods, fields and stand-alone signatures.

A reference carries its description, but its identity is its token: `==` on references compares
tokens only, while `=` compares descriptions too.
-/

namespace MethodWeave

/-- A type, under its full name. -/
structure TypeRef where
  token : Token
  name : String
deriving Repr, Inhabited

/-- A method with its signature. -/
structure MethodRef where
  token : Token
  declaringType : TypeRef
  name : String
  parameters : List TypeRef
  /-- `none` for a method without result. -/
  returnType : Option TypeRef
  isStatic : Bool
deriving Repr, Inhabited

/-- A field with its type. -/
structure FieldRef where
  token : Token
  declaringType : TypeRef
  name : String
  fieldType : TypeRef
  isStatic : Bool
deriving Repr, Inhabited

/-- A stand-alone signature: an uninterpreted blob under a token. -/
structure Signature where
  token : Token
  blob : List UInt8
deriving DecidableEq, Repr, Inhabited

instance : BEq TypeRef := ⟨fun a b => a.token == b.token⟩
instance : BEq MethodRef := ⟨fun a b => a.token == b.token⟩
instance : BEq FieldRef := ⟨fun a b => a.token == b.token⟩

/-- A member of any kind. -/
inductive Member where
  | method (m : MethodRef)
  | field (f : FieldRef)
  | type (t : TypeRef)
deriving BEq, Repr, Inhabited

namespace TypeRef

/-- The type of 32-bit numbers, in a module that has it in the second row of its types. -/
def int32 : TypeRef := ⟨.ofRow Token.typeDefTable 2, "System.Int32"⟩

/-- Types are printed by name. -/
def text (t : TypeRef) : String := t.name

/-- Kind, token and name together, for messages about the reference itself. -/
def describe (t : TypeRef) : String := "TypeRef(" ++ t.token.text ++ " " ++ t.text ++ ")"

end TypeRef

namespace MethodRef

def returnsValue (m : MethodRef) : Bool := m.returnType.isSome

/-- Stack slots that a call consumes: the parameters, and the receiver of an instance method. -/
def argSlots (m : MethodRef) : Nat := m.parameters.length + (if m.isStatic then 0 else 1)

/-- Methods are printed with declaring type and parameter types. -/
def text (m : MethodRef) : String :=
  m.declaringType.text ++ "#" ++ m.name ++ "("
    ++ ", ".intercalate (m.parameters.map TypeRef.text) ++ ")"

def describe (m : MethodRef) : String := "MethodRef(" ++ m.token.text ++ " " ++ m.text ++ ")"

end MethodRef

namespace FieldRef

/-- Fields are printed with declaring type. -/
def text (f : FieldRef) : String := f.declaringType.text ++ "::" ++ f.name

def describe (f : FieldRef) : String := "FieldRef(" ++ f.token.text ++ " " ++ f.text ++ ")"

end FieldRef

/-- Signatures are printed by token. -/
def Signature.text (s : Signature) : String := "sig " ++ s.token.text

namespace Member

def token : Member → Token
  | .method m => m.token
  | .field f => f.token
  | .type t => t.token

def text : Member → String
  | .method m => m.text
  | .field f => f.text
  | .type t => t.text

def describe : Member → String
  | .method m => m.describe
  | .field f => f.describe
  | .type t => t.describe

def method? : Member → Option MethodRef
  | .method m => some m
  | _ => none

def field? : Member → Option FieldRef
  | .field f => some f
  | _ => none

def type? : Member → Option TypeRef
  | .type t => some t
  | _ => none

end Member

end MethodWeave
