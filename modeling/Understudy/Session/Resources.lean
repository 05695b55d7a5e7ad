import Understudy.ClassPath.Merge
import Understudy.Session.State

/-!
Looking up resources. A selective loader serves what its own class path holds first, and then what
the loader that it defers to serves, each location once.
-/

namespace Understudy.Session

/-- The path of the file that a resource loader serves. -/
def servedPath (loader : ResourceLoader) (path : String) : String :=
  Path.join loader.root (loader.lead ++ path)

/-- The location of a resource, when at most `depth` loaders may ask each other in turn. -/
def resourceWithin : Nat → Session → LoaderId → String → Option Resource
  | 0, _, _, _ => none
  | depth + 1, s, id, path =>
    match s.loader? id with
    | some (.host host) => (s.classPathOf host.entries).resource? s.files path
    | some (.selective loader) =>
      match (s.classPathOf loader.entries).resource? s.files path with
      | some url => some url
      | none => resourceWithin depth s loader.deferred path
    | some (.resources loader) => Resource.file? s.files (servedPath loader path)
    | none => none

/-- The locations of a resource, when at most `depth` loaders may ask each other in turn. -/
def resourcesWithin : Nat → Session → LoaderId → String → List Resource
  | 0, _, _, _ => []
  | depth + 1, s, id, path =>
    match s.loader? id with
    | some (.host host) => (s.classPathOf host.entries).resources s.files path
    | some (.selective loader) =>
      Merge.collect
        [(s.classPathOf loader.entries).resources s.files path,
          resourcesWithin depth s loader.deferred path]
    | some (.resources loader) => (Resource.file? s.files (servedPath loader path)).toList
    | none => []

/-- The location of the resource that a loader serves under a path. -/
def resource (s : Session) (id : LoaderId) (path : String) : Option Resource :=
  resourceWithin s.loaders.length s id path

/-- The locations of all resources that a loader serves under a path. -/
def resources (s : Session) (id : LoaderId) (path : String) : List Resource :=
  resourcesWithin s.loaders.length s id path

end Understudy.Session
