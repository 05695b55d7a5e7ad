import Understudy.Session.Define

/-!
Loading classes. A class that a loader has defined stays what it is. For any other a host looks
along its class path, and a selective loader goes by the first interceptor that claims the name, or
else by its policy: it defines the class from its own class path, or asks the loader that it defers
to. What is its own it never looks for elsewhere.
-/

namespace Understudy

/-- How a loader asks another one for a class. -/
abbrev Asking := LoaderId → String → Session → Outcome DefinedClass

namespace Session

/-- A host's answer. -/
def loadFromHost (id : LoaderId) (host : HostLoader) (name : String) (s : Session) :
    Outcome DefinedClass :=
  match host.table.find? name with
  | some c => (.ok c, s)
  | none =>
    match (s.classPathOf host.entries).find s.files name with
    | .error e => (.error e, s)
    | .ok none => (.error (.classNotFound name), s)
    | .ok (some file) =>
      if file.name = name then
        let c : DefinedClass := ⟨⟨s.nextHandle⟩, id, {}, file⟩
        (.ok c, s.enter c)
      else
        (.error (.classNameMismatch name file.name), s)

/-- Passes a class through the chain of a selective loader. -/
def transform (id : LoaderId) (loader : SelectiveLoader) (name : String) (file : ClassFile)
    (s : Session) : Outcome ClassFile :=
  let context : Transformer.Context := ⟨name, id, loader.suppressStatic.matchAny name⟩
  let (visits, result) := Chain.apply loader.chain file context
  (result, { s with visits := s.visits ++ visits })

/-- Defines the class found on the class path, or made from it by the chain, for a request. -/
def defineOwned (id : LoaderId) (loader : SelectiveLoader) (name : String) (event : LoadEvent)
    (file : ClassFile) (s : Session) : Outcome DefinedClass :=
  match defineInTable id (.whole name file.bytes loader.domain) s with
  | (.ok c, s) => (.ok c, s.count id event)
  | failure => failure

/-- The answer for a class that a selective loader takes on itself. -/
def loadOwned (id : LoaderId) (loader : SelectiveLoader) (modify : Bool) (name : String)
    (s : Session) : Outcome DefinedClass :=
  match (s.classPathOf loader.entries).find s.files name with
  | .error e => (.error e, s)
  | .ok none => (.error (.classNotFound name), s.count id .notFound)
  | .ok (some file) =>
    if modify then
      match transform id loader name file s with
      | (.error e, s) => (.error e, s)
      | (.ok file, s) => defineOwned id loader name .transformed file s
    else
      defineOwned id loader name .unmodified file s

/-- The answer for a class that a selective loader leaves to another one. -/
def loadDeferred (ask : Asking) (id : LoaderId) (loader : SelectiveLoader) (name : String)
    (s : Session) : Outcome DefinedClass :=
  match ask loader.deferred name s with
  | (.ok c, s) => (.ok c, s.count id .deferred)
  | (.error e, s) => (.error e, if e.isNotFound then s.count id .notFound else s)

/-- The answer of an interceptor that claims a name. -/
def answerClaim (ask : Asking) (name : String) : Interceptor → Session → Outcome DefinedClass
  | .route route, s => ask route.target name s
  | .refuse _ e, s => (.error e, s)

/-- A selective loader's answer for a class, whether or not it has defined it. -/
def findSelective (ask : Asking) (id : LoaderId) (loader : SelectiveLoader) (name : String)
    (s : Session) : Outcome DefinedClass :=
  match loader.interceptors.find? (·.claims name) with
  | some interceptor =>
    let (answer, s) := answerClaim ask name interceptor s
    (answer, s.count id .intercepted)
  | none =>
    match loader.policy.decide name with
    | .modify => loadOwned id loader true name s
    | .loadUnmodified => loadOwned id loader false name s
    | .defer => loadDeferred ask id loader name s

/-- A selective loader's answer. -/
def loadFromSelective (ask : Asking) (id : LoaderId) (loader : SelectiveLoader) (name : String)
    (s : Session) : Outcome DefinedClass :=
  match loader.table.find? name with
  | some c => (.ok c, s.count id .cacheHit)
  | none => findSelective ask id loader name s

/-- The answer of a loader, which asks others by `ask`. -/
def loadAsking (ask : Asking) : Asking := fun id name s =>
  match s.loader? id with
  | some (.host host) => loadFromHost id host name s
  | some (.selective loader) => loadFromSelective ask id loader name s
  | _ => (.error (.classNotFound name), s)

/-- The answer of a loader when at most `depth` loaders may ask each other in turn. -/
def loadWithin : Nat → Asking
  | 0 => fun _ name s => (.error (.classNotFound name), s)
  | depth + 1 => loadAsking (loadWithin depth)

/-- Loads a class. No chain of loaders that ask each other in turn is longer than there are loaders,
unless one comes back to itself; and such a loader has no answer. -/
def load : Asking := fun id name s => loadWithin s.loaders.length id name s

/-- Finds a class as if the loader had not defined any. Only selective loaders tell this apart from
loading. -/
def find : Asking := fun id name s =>
  match s.loader? id with
  | some (.selective loader) => findSelective (loadWithin s.loaders.length) id loader name s
  | _ => load id name s

/-- The answer of a route that is asked directly, if it covers the name. -/
def askRoute (route : Route) (name : String) (s : Session) : Option (Outcome DefinedClass) :=
  if Route.covers route.leads name then some (load route.target name s) else none

end Session

end Understudy
