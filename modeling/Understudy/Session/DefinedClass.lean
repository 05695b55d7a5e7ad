import Understudy.ClassFile.Basic
import Understudy.Digest.Sha1
import Understudy.Identity
import Understudy.Keyed

/-!
Defined classes and the tables that loaders keep them in. A class is defined once, by one loader,
under its own name; the same bytes defined by another loader are another class.
-/

namespace Understudy

/-- Where a class is said to come from. -/
structure ProtectionDomain where
  codeSource : Option String := none
  deriving DecidableEq, Repr

/-- A class that a loader has defined. -/
structure DefinedClass where
  handle : ClassHandle
  loader : LoaderId
  domain : ProtectionDomain
  file : ClassFile
  deriving DecidableEq, Repr

namespace DefinedClass

/-- The digest of the bytes that the class was defined from. -/
def fingerprint (c : DefinedClass) : String := Sha1.hexDigest c.file.bytes

/-- The class in one line. -/
def describe (label : LoaderId → String) (c : DefinedClass) : String :=
  "LoadedClass \x7b name: " ++ Quoted.text c.file.name
    ++ ", loader: " ++ c.loader.describe label
    ++ ", access_flags: " ++ c.file.accessFlags.describe
    ++ ", len: " ++ toString c.file.bytes.length
    ++ ", fingerprint: " ++ Quoted.text c.fingerprint ++ " \x7d"

end DefinedClass

/-- The classes that a loader has defined, under their names. -/
abbrev ClassTable := Keyed DefinedClass

/-- A request to define a class from `length` of some bytes, starting at `offset`. -/
structure Definition where
  name : String
  bytes : Bytes
  offset : Nat
  length : Nat
  domain : ProtectionDomain
  deriving DecidableEq, Repr

namespace Definition

/-- A request for a class from all of some bytes. -/
def whole (name : String) (bytes : Bytes) (domain : ProtectionDomain) : Definition :=
  ⟨name, bytes, 0, bytes.length, domain⟩

/-- The bytes that a request selects. -/
def window (d : Definition) : Except Error Bytes :=
  if d.offset + d.length ≤ d.bytes.length then
    .ok ((d.bytes.drop d.offset).take d.length)
  else
    .error .outOfBounds

/-- The class file that a request holds, which must bear the name asked for. -/
def classFile (d : Definition) : Except Error ClassFile :=
  match d.window with
  | .error e => .error e
  | .ok bytes =>
    match ClassFile.parse bytes with
    | .error e => .error e
    | .ok file =>
      if file.name = d.name then .ok file else .error (.classNameMismatch d.name file.name)

/-- The class that a request adds to a loader's table. A name that is taken is refused last. -/
def classIn (d : Definition) (table : ClassTable) (owner : LoaderId) (handle : ClassHandle) :
    Except Error DefinedClass :=
  match d.classFile with
  | .error e => .error e
  | .ok file =>
    if table.has d.name then .error (.duplicateDefinition d.name)
    else .ok ⟨handle, owner, d.domain, file⟩

end Definition

end Understudy
