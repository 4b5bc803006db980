import MethodWeave.Text.Hex
import MethodWeave.Text.Unprintable
/-!
Quoted text: a string between double quotes in which every character is visible.  Quotes and
backslashes are escaped, tab, line feed, carriage return and NUL have short escapes, and any other
unprintable character is named by its code point.  A single quote stands for itself.
-/

namespace MethodWeave.Text

/-- The code point of `c`, spelled out in hexadecimal between braces. -/
def codePointEscape (c : Char) : List Char :=
  ['\\', 'u', '{'] ++ (hex 1 c.toNat).toList ++ ['}']

/-- How one character is written inside quotes. -/
def escapeChar (c : Char) : List Char :=
  match c with
  | '"' => ['\\', '"']
  | '\\' => ['\\', '\\']
  | '\t' => ['\\', 't']
  | '\n' => ['\\', 'n']
  | '\r' => ['\\', 'r']
  | '\x00' => ['\\', '0']
  | c => if isUnprintable c then codePointEscape c else [c]

/-- `s` between double quotes, each character escaped on its own. -/
def quoted (s : String) : String :=
  String.ofList (['"'] ++ s.toList.flatMap escapeChar ++ ['"'])

end MethodWeave.Text
