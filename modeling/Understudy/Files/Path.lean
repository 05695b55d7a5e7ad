import Understudy.Text.LossyUtf8
import Understudy.Text.Pieces

/-!
Paths as texts. Names are separated by slashes, of which several in a row count as one.
-/

namespace Understudy.Path

/-- Whether a path starts at the top of the tree. -/
def isAbsolute (path : String) : Bool := path.toList.head? == some '/'

/-- A path below another one. An absolute path stands for itself. -/
def join (base path : String) : String :=
  if isAbsolute path then path
  else if base.toList.getLast?.any (· != '/') then base ++ "/" ++ path
  else base ++ path

/-- The names between the slashes of a path. -/
def names (path : String) : List String :=
  (Pieces.ofString '/' path).filter (· != "")

/-- The steps a path asks for. A slash at the end asks for a directory, as does a point. -/
def steps (path : String) : List String :=
  if path.toList.getLast? == some '/' then names path ++ ["."] else names path

/-- Whether a path leads downwards only: it is not absolute, does not start at a point, never goes
up, and names something. Points further on and doubled slashes do no harm. -/
def isDownward (path : String) : Bool :=
  let plain := (names path).filter (· != ".")
  !isAbsolute path && (names path).head? != some "." && !plain.isEmpty && !plain.contains ".."

/-- A path without the slashes it begins with. -/
def dropLeadingSlashes (path : String) : String :=
  String.ofList (path.toList.dropWhile (· == '/'))

/-- The number of bytes of a text. -/
def byteLength (text : String) : Nat := (Utf8.encode text).length

end Understudy.Path
