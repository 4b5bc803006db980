import MethodWeave.Code.Reader
import MethodWeave.Metadata
/-!
Metadata for code that comes without its module.

Nothing is known about the tokens in such code, so each one resolves to a placeholder that is named
after it.  The table of a token tells which kind of member it is: method definitions and member
references count as methods.  User strings are the exception: only those that the code loads exist,
so the code is scanned for them first.
-/

namespace MethodWeave

/-- Placeholders for every token, and the strings found in the code. -/
structure BlobMetadata where
  strings : KeyMap String := {}
  tokens : List (String × Token) := []
deriving Inhabited

namespace BlobMetadata

/-- The type of everything that has to have one. -/
def object : TypeRef := ⟨.ofRow Token.typeDefTable 0, "object"⟩

/-- File a string under a token. -/
def addString (m : BlobMetadata) (token : Token) (s : String) : BlobMetadata :=
  { strings := m.strings.insert token.key s, tokens := (s, token) :: m.tokens }

def member? (token : Token) : Option Member :=
  let table := token.table
  if table = Token.methodDefTable ∨ table = Token.memberRefTable then
    some (.method ⟨token, object, token.text, [], none, true⟩)
  else if table = Token.fieldTable then
    some (.field ⟨token, object, token.text, object, true⟩)
  else if table = Token.typeDefTable ∨ table = Token.typeRefTable ∨ table = Token.typeSpecTable then
    some (.type ⟨token, token.text⟩)
  else none

def signature? (token : Token) : Option Signature :=
  if token.table = Token.signatureTable then some ⟨token, []⟩ else none

/-- The largest row of a token that a string is filed under. -/
def lastRow (m : BlobMetadata) : Nat :=
  m.strings.entries.foldl (fun row (key, _) => max row (Token.mk (UInt32.ofNat key)).row) 0

def intern (m : BlobMetadata) (s : String) : Token × BlobMetadata :=
  match m.tokens.lookup s with
  | some token => (token, m)
  | none =>
    let token := Token.ofRow Token.userStringTable (m.lastRow + 1)
    (token, m.addString token s)

instance : Metadata BlobMetadata where
  member? _ token := member? token
  signature? _ token := signature? token
  userString? m token := m.strings.get? token.key
  intern := intern

/-- Pass over the operand of an instruction, filing the string that it loads. -/
def scanOperand (m : BlobMetadata) (operand : OperandClass) (r : Reader) :
    Except ReadError (BlobMetadata × Reader) := do
  match operand with
  | .string =>
    let (v, r) ← r.u32
    return (m.addString ⟨v⟩ ("<" ++ (Token.mk v).text ++ ">"), r)
  | .switch =>
    let (count, r) ← r.u32
    if count.toNat > r.remaining / 4 then .error r.truncated
    else return (m, r.skip (4 * count.toNat))
  | operand =>
    let (_, r) ← r.take (operand.fixedSize?.getD 0)
    return (m, r)

/-- Pass over the instructions of a blob, at most `limit` of them. -/
def scanFrom : (limit : Nat) → BlobMetadata → Reader → Except ReadError BlobMetadata
  | 0, m, _ => .ok m
  | limit + 1, m, r =>
    if r.isEmpty then .ok m
    else do
      let (info, r) ← r.opcode
      let (m, r) ← scanOperand m info.operand r
      scanFrom limit m r

/-- Collect the strings that the code loads. -/
def scan (code : List UInt8) : Except ReadError BlobMetadata :=
  scanFrom code.length {} (Reader.ofBytes code)

end BlobMetadata

end MethodWeave
