import Understudy.Text.Blank
import Understudy.Text.Pieces
import Understudy.Text.Quoted

/-!
Patterns for class names. Blanks around a pattern do not count. A pattern with stars matches the
names that hold its pieces in order, the first at the start and the last at the end; stars alone
match every name. A pattern that ends in a point matches what begins with it. Any other pattern
matches the class or the package of that name, and what lies in that package.
-/

namespace Understudy

/-- How a pattern is matched. -/
inductive Pattern.Shape where
  | any
  | exact
  | package
  | wildcard (pieces : List (List Char))
  deriving DecidableEq, Repr

/-- A pattern's text without the blanks around it, and how it is matched. -/
structure Pattern where
  text : List Char
  shape : Pattern.Shape
  deriving DecidableEq, Repr

namespace Pattern.Shape

/-- The shape that the text of a pattern calls for. -/
def ofText (text : List Char) : Pattern.Shape :=
  if text ≠ [] ∧ text.all (· == '*') then .any
  else if text.contains '*' then .wildcard (Pieces.cut '*' text)
  else if text.getLast? = some '.' then .package
  else .exact

/-- The shape as descriptions show it. -/
def describe : Pattern.Shape → String
  | any => "Any"
  | exact => "Exact"
  | package => "Prefix"
  | wildcard pieces => "Wildcard(" ++ Quoted.texts (pieces.map String.ofList) ++ ")"

end Pattern.Shape

namespace Wildcard

/-- What follows the first occurrence of a piece. -/
def afterFirst? (piece : List Char) : List Char → Option (List Char)
  | [] => if piece.isEmpty then some [] else none
  | c :: s =>
    match Pieces.dropLead? piece (c :: s) with
    | some rest => some rest
    | none => afterFirst? piece s

/-- Looks for the pieces in order, each behind the one before it, and for the last one at the very
end. Taking the first occurrence of each leaves the most room for those that follow. -/
def matchPieces : List (List Char) → List Char → Bool
  | [], _ => false
  | [last], s => last.isSuffixOf s
  | piece :: rest, s =>
    match afterFirst? piece s with
    | some behind => matchPieces rest behind
    | none => false

/-- Whether a name begins with the first piece and holds the others in order behind it. -/
def matchName (pieces : List (List Char)) (name : List Char) : Bool :=
  match pieces with
  | [] => false
  | first :: rest =>
    match Pieces.dropLead? first name with
    | some behind => matchPieces rest behind
    | none => false

end Wildcard

namespace Pattern

/-- Reads a pattern. -/
def ofString (text : String) : Pattern :=
  let trimmed := Blank.trim text.toList
  ⟨trimmed, .ofText trimmed⟩

/-- The pattern's text. -/
def toString (p : Pattern) : String := String.ofList p.text

/-- Whether a name, taken as its characters, is matched. -/
def matchChars (p : Pattern) (name : List Char) : Bool :=
  match p.shape with
  | .any => true
  | .package => p.text.isPrefixOf name
  | .exact => p.text == name || (p.text ++ ['.']).isPrefixOf name
  | .wildcard pieces => Wildcard.matchName pieces name

/-- Whether a name is matched. -/
def isMatch (p : Pattern) (name : String) : Bool := p.matchChars name.toList

/-- Whether the pattern consists of stars alone. -/
def coversAll (p : Pattern) : Bool := p.shape == .any

/-- The pattern in one line. -/
def describe (p : Pattern) : String :=
  "NamePattern \x7b raw: " ++ Quoted.text p.toString ++ ", kind: " ++ p.shape.describe ++ " \x7d"

end Pattern

/-- Patterns of which any one may match. -/
abbrev Patterns := List Pattern

namespace Patterns

/-- Reads a list of patterns. -/
def ofStrings (texts : List String) : Patterns := texts.map Pattern.ofString

/-- Whether some pattern matches a name. -/
def matchAny (patterns : Patterns) (name : String) : Bool :=
  patterns.any (·.isMatch name)

/-- Whether some pattern consists of stars alone. -/
def coverAll (patterns : Patterns) : Bool := patterns.any (·.coversAll)

/-- The texts of the patterns. -/
def texts (patterns : Patterns) : List String := patterns.map Pattern.toString

/-- The patterns in one line. -/
def describe (patterns : Patterns) : String :=
  "PatternList \x7b patterns: " ++ Quoted.list (patterns.map Pattern.describe) ++ " \x7d"

end Patterns

end Understudy
