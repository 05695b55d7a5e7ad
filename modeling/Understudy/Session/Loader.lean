import Understudy.Session.Setup
import Understudy.Session.Interceptor
import Understudy.Session.Tally
import Understudy.Transformer.Chain

/-!
The three kinds of loaders. A host loader serves what its class path holds as it is. A selective
loader takes over the classes that its policy names, changes them by a chain of transformers, and
leaves all others to the loader that it defers to. A resource loader knows files and no classes.
Loaders of other kinds, which might answer one name in many ways, are left out; what is said of all
loaders is said of these three.
-/

namespace Understudy

/-- Serves the classes of its class path unchanged. -/
structure HostLoader where
  entries : List EntryId
  table : ClassTable := []
  deriving DecidableEq, Repr

/-- Takes over some classes and defers the rest. -/
structure SelectiveLoader where
  policy : Policy
  suppressStatic : Patterns
  entries : List EntryId
  table : ClassTable := []
  chain : Chain := []
  deferred : LoaderId
  interceptors : List Interceptor := []
  domain : ProtectionDomain
  stats : Tally := {}

/-- Serves files of a directory, whose paths all begin alike, as resources. -/
structure ResourceLoader where
  root : String
  lead : String
  deriving DecidableEq, Repr

/-- A loader of any kind. -/
inductive Loader where
  | host (loader : HostLoader)
  | selective (loader : SelectiveLoader)
  | resources (loader : ResourceLoader)

namespace Loader

/-- The classes defined. -/
def table : Loader → ClassTable
  | host loader => loader.table
  | selective loader => loader.table
  | resources _ => []

/-- The entries of the loader's own class path. -/
def entries : Loader → List EntryId
  | host loader => loader.entries
  | selective loader => loader.entries
  | resources _ => []

/-- What a selective loader has done so far. -/
def stats : Loader → Tally
  | selective loader => loader.stats
  | _ => {}

/-- Changes the table of a loader that has one. -/
def mapTable (f : ClassTable → ClassTable) : Loader → Loader
  | host loader => host { loader with table := f loader.table }
  | selective loader => selective { loader with table := f loader.table }
  | resources loader => resources loader

/-- Changes the class path of a loader that has one. -/
def mapEntries (f : List EntryId → List EntryId) : Loader → Loader
  | host loader => host { loader with entries := f loader.entries }
  | selective loader => selective { loader with entries := f loader.entries }
  | resources loader => resources loader

/-- Changes a selective loader. -/
def mapSelective (f : SelectiveLoader → SelectiveLoader) : Loader → Loader
  | selective loader => selective (f loader)
  | other => other

end Loader

end Understudy
