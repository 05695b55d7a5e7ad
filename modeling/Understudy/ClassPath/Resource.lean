import Understudy.Files.Tree
import Understudy.Identity

/-!
Where a resource lies: in a file, or in the memory of a class path entry. Two locations are the same
when they are the same file, whatever paths led there, or the same path of the same entry, whatever
the bytes.
-/

namespace Understudy

/-- The location of a resource. -/
inductive Resource where
  | file (place : Place)
  | memory (entry : EntryId) (origin path : String) (data : Bytes)
  deriving DecidableEq, Repr

/-- What tells locations apart. -/
inductive Resource.Key where
  | file (place : Place)
  | memory (entry : EntryId) (path : String)
  deriving DecidableEq, Repr

namespace Resource

/-- The location's identity. -/
def key : Resource → Resource.Key
  | file place => .file place
  | memory entry _ path _ => .memory entry path

/-- The location of the file that a path leads to. -/
def file? (tree : FileTree) (path : String) : Option Resource :=
  (tree.file? path).map .file

/-- The path under which the resource lies. -/
def path : Resource → String
  | file place => place.toPath
  | memory _ _ path _ => path

/-- Whether the path ends with a text. -/
def endsWith (r : Resource) (suffix : String) : Bool :=
  suffix.toList.isSuffixOf r.path.toList

/-- The bytes of the resource. A file is read anew each time. -/
def read (tree : FileTree) : Resource → Except Error Bytes
  | file place => (tree.read place.toPath).mapError .file
  | memory _ _ _ data => .ok data

/-- The location in one line. -/
def display : Resource → String
  | file place => "file:" ++ place.toPath
  | memory _ origin path _ => "memory:" ++ origin ++ "!/" ++ path

/-- The location as descriptions show it. -/
def describe (r : Resource) : String := "ResourceUrl(" ++ r.display ++ ")"

end Resource

end Understudy
