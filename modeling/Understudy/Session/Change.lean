import Understudy.Session.State

/-!
Setting loaders up, and changing how they are set up. A selective loader whose class path cannot be
adjusted does not come into being.
-/

namespace Understudy.Session

/-- Makes an entry for each directory, in order. -/
def addDirectories (roots : List String) (s : Session) : List EntryId × Session :=
  roots.foldl (fun (entries, s) root =>
    let (entry, s) := s.addEntry (.directory root)
    (entries ++ [entry], s)) ([], s)

/-- Synthesizes a class, held by an entry of its own: the entry, and the class as it reads. -/
def synthesize (name : String) (s : Session) : (EntryId × Except Error ClassFile) × Session :=
  let bytes := Stub.encode { name := name }
  let (entry, s) := s.addEntry (.single name bytes)
  ((entry, ClassFile.parse bytes), s)

/-- Makes one edit: the entry that it appends. A class that cannot be synthesized leaves its entry
behind. -/
def editOnce : ClassPathEdit → Session → Outcome EntryId
  | .append entry, s => (.ok entry, s)
  | .synthesize name, s =>
    let ((entry, file), s) := synthesize name s
    (file.map fun _ => entry, s)
  | .appendDirectory root, s =>
    let (entry, s) := s.addEntry (.directory root)
    (.ok entry, s)
  | .fail e, s => (.error e, s)

/-- Makes edits to a class path until one fails. -/
def edit : List ClassPathEdit → List EntryId → Session → Outcome (List EntryId)
  | [], entries, s => (.ok entries, s)
  | e :: rest, entries, s =>
    match editOnce e s with
    | (.error e, s) => (.error e, s)
    | (.ok entry, s) => edit rest (entries ++ [entry]) s

/-- Sets a host loader up. -/
def addHost (entries : List EntryId) (s : Session) : LoaderId × Session :=
  s.addLoader (.host { entries := entries })

/-- Sets a resource loader up. -/
def addResourceLoader (root lead : String) (s : Session) : LoaderId × Session :=
  s.addLoader (.resources ⟨root, lead⟩)

/-- Sets a selective loader up. It defers to the ambient loader and has neither transformers nor
interceptors. -/
def addSelective (config : Setup) (s : Session) : Outcome LoaderId :=
  let (entries, s) := s.addDirectories config.directories
  match edit (config.adjuster.getD []) entries s with
  | (.error e, s) => (.error (.adjusterFailure e), s)
  | (.ok entries, s) =>
    let (id, s) := s.addLoader (.selective {
      policy := config.policy
      suppressStatic := config.suppressStatic
      entries := entries
      deferred := ambient
      domain := config.domain })
    (.ok id, s)

/-- Gives a selective loader another chain of transformers. -/
def setChain (id : LoaderId) (chain : Chain) (s : Session) : Session :=
  s.updateLoader id (·.mapSelective ({ · with chain := chain }))

/-- Makes a selective loader defer to another one. -/
def setDeferred (id target : LoaderId) (s : Session) : Session :=
  s.updateLoader id (·.mapSelective ({ · with deferred := target }))

/-- Puts an interceptor behind those that a selective loader has. -/
def addInterceptor (id : LoaderId) (interceptor : Interceptor) (s : Session) : Session :=
  s.updateLoader id (·.mapSelective fun m =>
    { m with interceptors := m.interceptors ++ [interceptor] })

/-- Appends ignores to the policy of a selective loader. -/
def addIgnores (id : LoaderId) (patterns : List String) (s : Session) : Session :=
  s.updateLoader id (·.mapSelective fun m =>
    { m with policy := patterns.foldl Policy.addIgnore m.policy })

end Understudy.Session
