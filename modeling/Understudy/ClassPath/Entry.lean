import Understudy.ClassFile.Name
import Understudy.Keyed
import Understudy.ClassPath.Resource
import Understudy.Text.Quoted

/-!
Entries of a class path. A directory holds classes and resources as files below its root and answers
for nothing outside of it. A single class is held as bytes. A memory entry holds any number of
classes and resources. Whatever holds a class serves its bytes as a resource as well. Entries of
other kinds, which might hold classes in ways of their own, are left out; what is said of all
entries is said of these three.
-/

namespace Understudy

/-- What an entry holds. -/
inductive Holding where
  | directory (root : String)
  | single (className : String) (bytes : Bytes)
  | memory (label : String) (classes resources : Keyed Bytes)
  deriving DecidableEq, Repr

/-- An entry of a class path. -/
structure Entry where
  id : EntryId
  holding : Holding
  deriving DecidableEq, Repr

namespace Holding

/-- An empty memory entry. -/
def emptyMemory (label : String) : Holding := .memory label [] []

/-- The name an entry goes by. -/
def label : Holding → String
  | directory root => root
  | single className _ => "bytes:" ++ className
  | memory label _ _ => label

/-- Stores a class in a memory entry. -/
def insertClass (name : String) (bytes : Bytes) : Holding → Holding
  | memory label classes resources => memory label (classes.insert name bytes) resources
  | other => other

/-- Stores a resource in a memory entry. -/
def insertResource (path : String) (bytes : Bytes) : Holding → Holding
  | memory label classes resources =>
    memory label classes (resources.insert (Path.dropLeadingSlashes path) bytes)
  | other => other

/-- How many classes a memory entry holds. -/
def classCount : Holding → Nat
  | memory _ classes _ => classes.length
  | _ => 0

/-- Whether a class of this name can lie in a directory: its parts are not empty and hold neither
slash nor backslash. -/
def isFileable (name : String) : Bool :=
  !name.toList.contains '/' && !name.toList.contains '\\' &&
    (Pieces.cut '.' name.toList).all (· != [])

/-- The name of the class that lies under a resource path, if that is the path of a class. -/
def classNameOf? (path : String) : Option String :=
  if ".class".toList.isSuffixOf path.toList then
    some (ClassName.binary (String.ofList (path.toList.take (path.toList.length - 6))))
  else
    none

/-- The entry in one line. -/
def describe : Holding → String
  | directory root => "DirClassPath \x7b root: " ++ Quoted.text root ++ " \x7d"
  | single className bytes =>
    "ByteArrayClassPath \x7b class_name: " ++ Quoted.text className
      ++ ", len: " ++ toString bytes.length ++ " \x7d"
  | memory label classes resources =>
    "MemoryClassPath \x7b label: " ++ Quoted.text label
      ++ ", classes: " ++ toString classes.length
      ++ ", resources: " ++ toString resources.length ++ " \x7d"

end Holding

namespace Entry

/-- The bytes of a class, if the entry holds it. A directory does not hold what is not there; any
other trouble with its file is reported. -/
def classBytes (tree : FileTree) (entry : Entry) (name : String) :
    Except Error (Option Bytes) :=
  match entry.holding with
  | .directory root =>
    let path := ClassName.resourcePath name
    if Holding.isFileable name && Path.isDownward path then
      match tree.read (Path.join root path) with
      | .ok bytes => .ok (some bytes)
      | .error .notFound => .ok none
      | .error fault => .error (.file fault)
    else
      .ok none
  | .single className bytes => .ok (if name = className then some bytes else none)
  | .memory _ classes _ => .ok (classes.find? name)

/-- The bytes that a memory entry serves under a path: a resource, or else a class. -/
def servedBytes (classes resources : Keyed Bytes) (path : String) : Option Bytes :=
  match resources.find? path with
  | some data => some data
  | none => (Holding.classNameOf? path).bind classes.find?

/-- The location of a resource, if the entry holds it. Slashes in front of the path do not count. -/
def resource? (tree : FileTree) (entry : Entry) (path : String) : Option Resource :=
  let path := Path.dropLeadingSlashes path
  let inMemory := fun data => Resource.memory entry.id entry.holding.label path data
  match entry.holding with
  | .directory root =>
    if Path.isDownward path then Resource.file? tree (Path.join root path) else none
  | .single className bytes =>
    if path = ClassName.resourcePath className then some (inMemory bytes) else none
  | .memory _ classes resources => (servedBytes classes resources path).map inMemory

end Entry

end Understudy
