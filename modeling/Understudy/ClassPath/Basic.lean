import Understudy.ClassFile.Stub
import Understudy.ClassPath.Entry

/-!
Class paths: entries in the order in which they are asked. The first entry that holds a class or a
resource answers for it. An entry that cannot tell ends the search for a class.
-/

namespace Understudy

/-- Entries in the order in which they are asked. -/
structure ClassPath where
  entries : List Entry
  deriving DecidableEq, Repr

namespace ClassPath

/-- The bytes of a class from the first entry that does not deny it. -/
def findBytes (tree : FileTree) (name : String) :
    List Entry → Except Error (Option Bytes)
  | [] => .ok none
  | entry :: rest =>
    match entry.classBytes tree name with
    | .ok none => findBytes tree name rest
    | answer => answer

/-- The class that is found under a name, if any. -/
def find (tree : FileTree) (cp : ClassPath) (name : String) : Except Error (Option ClassFile) :=
  match findBytes tree name cp.entries with
  | .error e => .error e
  | .ok none => .ok none
  | .ok (some bytes) => (ClassFile.parse bytes).map some

/-- The class that is found under a name, which must be there. -/
def get (tree : FileTree) (cp : ClassPath) (name : String) : Except Error ClassFile :=
  match cp.find tree name with
  | .error e => .error e
  | .ok none => .error (.classNotFound name)
  | .ok (some file) => .ok file

/-- Whether some entry holds a class. Entries that cannot tell are passed over, and the bytes are
not looked into. -/
def contains (tree : FileTree) (cp : ClassPath) (name : String) : Bool :=
  cp.entries.any fun entry =>
    match entry.classBytes tree name with
    | .ok (some _) => true
    | _ => false

/-- The location of a resource in the first entry that holds it. -/
def resource? (tree : FileTree) (cp : ClassPath) (path : String) : Option Resource :=
  cp.entries.findSome? (·.resource? tree path)

/-- The locations of a resource in all entries that hold it. -/
def resources (tree : FileTree) (cp : ClassPath) (path : String) : List Resource :=
  cp.entries.filterMap (·.resource? tree path)

/-- The class path in one line. -/
def describe (cp : ClassPath) : String :=
  "ClassPool \x7b entries: " ++ Quoted.texts (cp.entries.map (·.holding.label)) ++ " \x7d"

end ClassPath

/-- The directories that a class path variable lists: what lies between its colons, without what is
empty. -/
def systemClassPath (value : Option String) : List String :=
  ((value.map (Pieces.ofString ':')).getD []).filter (· != "")

end Understudy
