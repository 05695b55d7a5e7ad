import Understudy.Session.Loader

/-!
A session: all loaders that know of each other, the entries that their class paths share, and the
files below them. Everything that happens to loaders happens to a session, which is a value: an
operation yields its answer and the session that follows, also when the answer is a failure. Things
happen one after the other; what might happen at the same time, and what is logged, is left out.
-/

namespace Understudy

/-- Loaders, entries and files. Identities are positions: those of loaders in `loaders`, those of
entries in `holdings`. `nextHandle` numbers the class that is defined next, and `visits` are the
calls of transformers so far. -/
structure Session where
  files : FileTree
  holdings : List Holding
  loaders : List Loader
  nextHandle : Nat
  visits : List Visit

/-- An answer, or a failure, and the session that follows. -/
abbrev Outcome (α : Type) := Except Error α × Session

namespace Session

/-- The loader that others defer to unless told otherwise: a host without entries. -/
def ambient : LoaderId := ⟨0⟩

/-- A session over some files, with no loader but the ambient one. -/
def start (files : FileTree) : Session := ⟨files, [], [.host { entries := [] }], 0, []⟩

/-- The loader of an identity. -/
def loader? (s : Session) (id : LoaderId) : Option Loader := s.loaders[id.value]?

/-- The entry of an identity. -/
def entryAt? (s : Session) (id : EntryId) : Option Entry :=
  (s.holdings[id.value]?).map (⟨id, ·⟩)

/-- The class path made of some entries as they are now. -/
def classPathOf (s : Session) (ids : List EntryId) : ClassPath := ⟨ids.filterMap s.entryAt?⟩

/-- The classes that a loader has defined. -/
def tableOf (s : Session) (id : LoaderId) : ClassTable := ((s.loader? id).map (·.table)).getD []

/-- Whether a loader has defined a class. -/
def isDefined (s : Session) (id : LoaderId) (name : String) : Bool := (s.tableOf id).has name

/-- Changes a loader. -/
def updateLoader (s : Session) (id : LoaderId) (f : Loader → Loader) : Session :=
  { s with loaders := s.loaders.modify id.value f }

/-- Changes what an entry holds. -/
def updateEntry (s : Session) (id : EntryId) (f : Holding → Holding) : Session :=
  { s with holdings := s.holdings.modify id.value f }

/-- Adds a loader. -/
def addLoader (s : Session) (loader : Loader) : LoaderId × Session :=
  (⟨s.loaders.length⟩, { s with loaders := s.loaders ++ [loader] })

/-- Adds an entry. -/
def addEntry (s : Session) (holding : Holding) : EntryId × Session :=
  (⟨s.holdings.length⟩, { s with holdings := s.holdings ++ [holding] })

/-- Appends an entry to the class path of a loader. -/
def appendTo (s : Session) (id : LoaderId) (entry : EntryId) : Session :=
  s.updateLoader id (·.mapEntries (· ++ [entry]))

/-- Counts how a request to a loader ended. -/
def count (s : Session) (id : LoaderId) (event : LoadEvent) : Session :=
  s.updateLoader id (·.mapSelective fun m => { m with stats := m.stats.count event })

/-- Enters a newly defined class into the table of its loader. -/
def enter (s : Session) (c : DefinedClass) : Session :=
  { s.updateLoader c.loader (·.mapTable (·.insert c.file.name c)) with
    nextHandle := s.nextHandle + 1 }

end Session

end Understudy
