import Understudy.Error
import Understudy.Files.Path

/-!
A tree of directories, files and symbolic links, and what paths in it lead to. Looking a path up
passes its names one by one: each must be found in a directory, and a link is passed by taking the
path that it holds in its place. A path that is looked up is itself of limited length, but through
links it can lead to places whose own paths are longer.

All names and paths are texts; names in bytes that are no text are left out, and so are permissions
and other kinds of nodes. There is one directory that relative paths start from, and it is the top
of the tree for good.
-/

namespace Understudy

/-- The names that lead from the top of the tree to a node, without links. -/
abbrev Place := List String

/-- What stands at a place. -/
inductive FileNode where
  | directory
  | file (content : Bytes)
  | link (target : String)
  deriving DecidableEq, Repr

/-- The nodes of a tree by their places. The top itself is always a directory. -/
structure FileTree where
  nodes : List (Place × FileNode)
  deriving Repr

namespace Place

/-- The path of a place. -/
def toPath (place : Place) : String := "/" ++ "/".intercalate place

end Place

namespace FileTree

/-- The tree with nothing but its top. -/
def empty : FileTree := ⟨[]⟩

/-- The node at a place. -/
def node? (tree : FileTree) (place : Place) : Option FileNode :=
  if place = [] then some .directory
  else (tree.nodes.find? (·.1 == place)).map Prod.snd

/-- Puts a node at a place, instead of the one that was there. -/
def put (tree : FileTree) (place : Place) (node : FileNode) : FileTree :=
  ⟨(place, node) :: tree.nodes.filter (·.1 != place)⟩

/-- Takes away a place and everything below it. -/
def erase (tree : FileTree) (place : Place) : FileTree :=
  ⟨tree.nodes.filter fun (other, _) => !place.isPrefixOf other⟩

/-! ### Looking paths up -/

/-- The most links that one look-up passes. -/
def maxLinks : Nat := 40

/-- The most bytes in one name. -/
def maxNameLength : Nat := 255

/-- The number of bytes from which on a path is too long. -/
def maxPathLength : Nat := 4096

/-- Whether the path of a place is short enough to be looked up. -/
def isNameable (place : Place) : Bool := Path.byteLength place.toPath < maxPathLength

/-- Walks on from a place, where only what `passes` accepts is gone through. `follow` goes on where
a link has been met: from the place it is taken from, along the steps of its target and then the
remaining ones. -/
def walk (tree : FileTree) (passes : Place → Bool)
    (follow : Place → List String → Except FileFault Place) :
    Place → List String → Except FileFault Place
  | here, [] => .ok here
  | here, name :: rest =>
    if tree.node? here ≠ some .directory then .error .notDirectory
    else if name = "." then walk tree passes follow here rest
    else if name = ".." then walk tree passes follow here.dropLast rest
    else if maxNameLength < Path.byteLength name then .error .nameTooLong
    else if !passes (here ++ [name]) then .error .nameTooLong
    else match tree.node? (here ++ [name]) with
      | none => .error .notFound
      | some (.link target) =>
        if target = "" then .error .notFound
        else follow (if Path.isAbsolute target then [] else here) (Path.steps target ++ rest)
      | some _ => walk tree passes follow (here ++ [name]) rest

/-- Walks on, passing at most `links` links. -/
def walkLinks (tree : FileTree) (passes : Place → Bool) :
    Nat → Place → List String → Except FileFault Place
  | 0 => walk tree passes fun _ _ => .error .tooManyLinks
  | links + 1 => walk tree passes (walkLinks tree passes links)

/-- The place that some steps lead to. -/
def placeFrom (tree : FileTree) (here : Place) (steps : List String) : Except FileFault Place :=
  walkLinks tree (fun _ => true) maxLinks here steps

/-- The place that a path leads to, where only what `passes` accepts is gone through. Relative
paths start at the top. -/
def resolveThrough (tree : FileTree) (passes : Place → Bool) (path : String) :
    Except FileFault Place :=
  if path.toList.contains '\x00' then .error .nulInPath
  else if path = "" then .error .notFound
  else if maxPathLength ≤ Path.byteLength path then .error .nameTooLong
  else walkLinks tree passes maxLinks [] (Path.steps path)

/-- The place that a path leads to. -/
def resolve (tree : FileTree) (path : String) : Except FileFault Place :=
  tree.resolveThrough (fun _ => true) path

/-- The bytes of the file at a place. -/
def contentAt (tree : FileTree) (place : Place) : Except FileFault Bytes :=
  match tree.node? place with
  | some (.file content) => .ok content
  | some .directory => .error .isDirectory
  | _ => .error .notFound

/-- The bytes of the file that a path leads to. -/
def read (tree : FileTree) (path : String) : Except FileFault Bytes :=
  match tree.resolve path with
  | .ok place => tree.contentAt place
  | .error fault => .error fault

/-- The place of the file that a path leads to. The way to it goes only through places that have
paths of their own, so that the file can be found again by its place. -/
def file? (tree : FileTree) (path : String) : Option Place :=
  match tree.resolveThrough isNameable path with
  | .ok place =>
    match tree.node? place with
    | some (.file _) => some place
    | _ => none
  | .error _ => none

/-! ### Building trees -/

/-- Makes the directories along a walk that are not there yet, and tells where the walk ends. -/
def makeAlong (tree : FileTree) (here : Place) : List String → FileTree × Place
  | [] => (tree, here)
  | name :: rest =>
    match tree.placeFrom here [name] with
    | .ok place => makeAlong tree place rest
    | .error _ => makeAlong (tree.put (here ++ [name]) .directory) (here ++ [name]) rest

/-- Makes a directory, and those above it. -/
def makeDirectory (tree : FileTree) (path : String) : FileTree :=
  (tree.makeAlong [] (Path.names path)).1

/-- The place that is meant by a place when it is written to: where the links end that start
there, be there anything or not. -/
def landing (tree : FileTree) : Nat → Place → Place
  | 0, place => place
  | links + 1, place =>
    match tree.node? place with
    | some (.link target) =>
      let names := Path.names target
      match tree.placeFrom (if Path.isAbsolute target then [] else place.dropLast)
        names.dropLast with
      | .ok parent => landing tree links (parent ++ names.getLast?.toList)
      | .error _ => place
    | _ => place

/-- Makes the directories above what a path names, and tells which place that is. -/
def makeParents (tree : FileTree) (path : String) : FileTree × Place :=
  let names := Path.names path
  let (made, parent) := tree.makeAlong [] names.dropLast
  (made, parent ++ names.getLast?.toList)

/-- Writes a file where a path leads to, and makes the directories above it. -/
def writeFile (tree : FileTree) (path : String) (content : Bytes) : FileTree :=
  let (made, place) := tree.makeParents path
  made.put (made.landing maxLinks place) (.file content)

/-- Makes a link, and the directories above it. -/
def makeLink (tree : FileTree) (path target : String) : FileTree :=
  let (made, place) := tree.makeParents path
  made.put place (.link target)

/-- Takes away what the last name of a path stands for; a link itself, not its target. -/
def remove (tree : FileTree) (path : String) : FileTree :=
  let names := Path.names path
  match tree.placeFrom [] names.dropLast with
  | .ok parent => tree.erase (parent ++ names.getLast?.toList)
  | .error _ => tree

end FileTree

end Understudy
