import Understudy.Text.Hex
import Understudy.Text.Printable

/-!
Quoted text for one-line descriptions: a text between double quotes in which the quote, the
backslash, line ends, tabs and everything that does not show as itself are escaped.
-/

namespace Understudy.Quoted

/-- A character by its number in lower case hexadecimal. -/
def numbered (c : Char) : List Char :=
  ['\\', 'u', '\x7b'] ++ Hex.digits 1 c.toNat ++ ['\x7d']

/-- What one character is written as. A single quote shows as itself. -/
def escape (c : Char) : List Char :=
  if c = '\x00' then ['\\', '0']
  else if c = '\t' then ['\\', 't']
  else if c = '\r' then ['\\', 'r']
  else if c = '\n' then ['\\', 'n']
  else if c = '\\' then ['\\', '\\']
  else if c = '"' then ['\\', '"']
  else if 0x20 ≤ c.toNat ∧ c.toNat < 0x7F then [c]
  else if Printable.isPrintable c then [c]
  else numbered c

/-- A text between double quotes. -/
def text (s : String) : String :=
  "\"" ++ String.ofList (s.toList.flatMap escape) ++ "\""

/-- A quoted text that may be missing. -/
def optional : Option String → String
  | none => "None"
  | some s => "Some(" ++ text s ++ ")"

/-- Items in square brackets, with commas between them. -/
def list (items : List String) : String :=
  "[" ++ ", ".intercalate items ++ "]"

/-- Quoted texts in square brackets. -/
def texts (items : List String) : String := list (items.map text)

end Understudy.Quoted
