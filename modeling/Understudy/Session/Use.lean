import Understudy.Session.Change
import Understudy.Session.Load
import Understudy.Session.Resources

/-!
Loaders in use, once they are set up. Whoever holds a loader asks it for classes and resources,
appends ignores, and extends its class path and what lies on it. Entries of the loader's own class
path go by their positions there, so what is done to a loader can be told without an identity that
the session gives out while it is done.
-/

namespace Understudy

/-- An entry to append to a class path: a new one, one of which the identity is known, or once more
the one at a position. -/
inductive Addition where
  | fresh (holding : Holding)
  | known (entry : EntryId)
  | again (position : Nat)

/-- What is done with a loader. -/
inductive Act where
  | load (name : String)
  | find (name : String)
  | define (d : Definition)
  | isDefined (name : String)
  | resource (path : String)
  | resources (path : String)
  | addIgnores (patterns : List String)
  | append (addition : Addition)
  | synthesize (name : String)
  | insertClass (position : Nat) (name : String) (bytes : Bytes)
  | insertResource (position : Nat) (path : String) (bytes : Bytes)

/-- What comes of it. -/
inductive Act.Answer where
  | done
  | told (answer : Bool)
  | loaded (answer : Except Error DefinedClass)
  | made (answer : Except Error ClassFile)
  | location (answer : Option Resource)
  | locations (answer : List Resource)

namespace Session

/-- The entries on the class path of a loader. -/
def entriesOf (s : Session) (id : LoaderId) : List EntryId :=
  ((s.loader? id).map (·.entries)).getD []

/-- Changes what the entry at a position of a loader's class path holds, if there is one. -/
def updateOwn (s : Session) (id : LoaderId) (position : Nat) (f : Holding → Holding) : Session :=
  match (s.entriesOf id)[position]? with
  | some entry => s.updateEntry entry f
  | none => s

/-- Appends to the class path of a loader. -/
def append (s : Session) (id : LoaderId) : Addition → Session
  | .fresh holding =>
    let (entry, s) := s.addEntry holding
    s.appendTo id entry
  | .known entry => s.appendTo id entry
  | .again position =>
    match (s.entriesOf id)[position]? with
    | some entry => s.appendTo id entry
    | none => s

end Session

/-- The answer to what is done with a loader, and the session that follows. -/
def Act.perform (id : LoaderId) : Act → Session → Act.Answer × Session
  | load name, s =>
    let (answer, s) := s.load id name
    (.loaded answer, s)
  | find name, s =>
    let (answer, s) := s.find id name
    (.loaded answer, s)
  | define d, s =>
    let (answer, s) := s.define id d
    (.loaded answer, s)
  | isDefined name, s => (.told (s.isDefined id name), s)
  | resource path, s => (.location (s.resource id path), s)
  | resources path, s => (.locations (s.resources id path), s)
  | addIgnores patterns, s => (.done, s.addIgnores id patterns)
  | append addition, s => (.done, s.append id addition)
  | synthesize name, s =>
    let ((entry, answer), s) := s.synthesize name
    (.made answer, s.appendTo id entry)
  | insertClass position name bytes, s =>
    (.done, s.updateOwn id position (·.insertClass name bytes))
  | insertResource position path bytes, s =>
    (.done, s.updateOwn id position (·.insertResource path bytes))

namespace Session

/-- Uses loaders, in order: what came of it for each of them, and the session that results. -/
def use : List (LoaderId × Act) → Session → List (LoaderId × Act.Answer) × Session
  | [], s => ([], s)
  | (id, act) :: rest, s =>
    let (answer, s) := act.perform id s
    let (answers, s) := use rest s
    ((id, answer) :: answers, s)

end Session

end Understudy
