import Understudy.Session.State

/-!
Defining classes directly. A selective loader keeps the bytes of a class defined this way on its
class path as well, so that they can be had as a resource.
-/

namespace Understudy.Session

/-- Defines a class in the table of a loader. -/
def defineInTable (id : LoaderId) (d : Definition) (s : Session) : Outcome DefinedClass :=
  match d.classIn (s.tableOf id) id ⟨s.nextHandle⟩ with
  | .error e => (.error e, s)
  | .ok c => (.ok c, s.enter c)

/-- Keeps the bytes of a class on the class path of a loader. -/
def keepBytes (id : LoaderId) (c : DefinedClass) (s : Session) : Session :=
  let (entry, s) := s.addEntry (.single c.file.name c.file.bytes)
  s.appendTo id entry

/-- Defines a class directly. -/
def define (id : LoaderId) (d : Definition) (s : Session) : Outcome DefinedClass :=
  match s.loader? id with
  | some (.host _) => defineInTable id d s
  | some (.selective _) =>
    match defineInTable id d s with
    | (.ok c, s) => (.ok c, s.keepBytes id c)
    | failure => failure
  | _ => (.error (.classNotFound d.name), s)

end Understudy.Session
