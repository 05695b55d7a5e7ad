import Understudy.ClassFile.AccessFlags
import Understudy.ClassFile.ConstantPool
import Understudy.ClassFile.Version
import Understudy.Text.Quoted

/-!
Class files. Reading one interprets its header only: version, constant pool, access flags and the
names of the class and of its superclass. Everything behind the header is carried along unread. The
two setters overwrite their field in place, so the bytes and the header keep telling the same.
-/

namespace Understudy

/-- The bytes of a class together with what their header says. -/
structure ClassFile where
  bytes : Bytes
  name : String
  superName : Option String
  version : ClassVersion
  accessFlags : AccessFlags
  flagsOffset : Nat
  deriving DecidableEq, Repr

namespace ClassFile

/-- The first four bytes of every class file. -/
def magic : Nat := 0xCAFEBABE

/-- What a class header says, before its slots are looked up. -/
structure Header where
  version : ClassVersion
  constants : List Constant
  flagsOffset : Nat
  accessFlags : AccessFlags
  thisSlot : Nat
  superSlot : Nat
  deriving DecidableEq, Repr

/-- Reads what follows the constant pool: flags, and the slots of the class and its superclass. -/
def Header.readClass (version : ClassVersion) (constants : List Constant) (c : Cursor) :
    Except Error Header :=
  match c.number 2 with
  | (.error e, _) => .error e
  | (.ok flags, afterFlags) =>
    match afterFlags.number 2 with
    | (.error e, _) => .error e
    | (.ok thisSlot, afterThis) =>
      match afterThis.number 2 with
      | (.error e, _) => .error e
      | (.ok superSlot, _) =>
        .ok ⟨version, constants, c.position, ⟨flags.toUInt16⟩, thisSlot, superSlot⟩

/-- Reads what follows the magic number: version, constant pool, and the rest. -/
def Header.readVersion (c : Cursor) : Except Error Header :=
  match c.number 2 with
  | (.error e, _) => .error e
  | (.ok minor, afterMinor) =>
    match afterMinor.number 2 with
    | (.error e, _) => .error e
    | (.ok major, afterMajor) =>
      match ConstantPool.read afterMajor with
      | (.error e, _) => .error e
      | (.ok constants, next) =>
        Header.readClass ⟨major.toUInt16, minor.toUInt16⟩ constants next

/-- Reads a class header. -/
def Header.read (bytes : Bytes) : Except Error Header :=
  match (Cursor.start bytes).number 4 with
  | (.error e, _) => .error e
  | (.ok word, next) =>
    if word = magic then Header.readVersion next
    else .error (.malformed (.badMagic word) none)

/-- Reads a class file. The whole header is read before the names are looked up, so a header that
is cut short is reported as such whatever its slots hold. -/
def parse (bytes : Bytes) : Except Error ClassFile :=
  match Header.read bytes with
  | .error e => .error e
  | .ok header =>
    match ConstantPool.className header.constants header.thisSlot with
    | .error e => .error e
    | .ok name =>
      match ConstantPool.className? header.constants header.superSlot with
      | .error e => .error e
      | .ok superName =>
        .ok ⟨bytes, name, superName, header.version, header.accessFlags, header.flagsOffset⟩

/-- The outcome of an edit in place: whether it succeeded, and the file as it was left behind. -/
abbrev Edited := Except Error Unit × ClassFile

/-- The file that a successful edit left behind. -/
def Edited.file : Edited → Except Error ClassFile
  | (.ok _, file) => .ok file
  | (.error e, _) => .error e

/-- Overwrites the access flags. -/
def setAccessFlags (file : ClassFile) (flags : AccessFlags) : Edited :=
  match BigEndian.writeAt file.bytes 2 file.flagsOffset flags.bits.toNat with
  | .error e => (.error e, file)
  | .ok (bytes, _) => (.ok (), { file with bytes := bytes, accessFlags := flags })

/-- The place of the version, whose minor number comes first. -/
def versionOffset : Nat := 4

/-- Overwrites the version. A buffer that ends between the two numbers is left with the first of
them written. -/
def setVersion (file : ClassFile) (version : ClassVersion) : Edited :=
  match BigEndian.writeAt file.bytes 2 versionOffset version.minor.toNat with
  | .error e => (.error e, file)
  | .ok (bytes, next) =>
    match BigEndian.writeAt bytes 2 next version.major.toNat with
    | .error e => (.error e, { file with bytes := bytes })
    | .ok (bytes, _) => (.ok (), { file with bytes := bytes, version := version })

/-- Puts other bytes in the place of the whole file. Bytes that are no class file change nothing. -/
def replaceBytes (file : ClassFile) (bytes : Bytes) : Edited :=
  match parse bytes with
  | .error e => (.error e, file)
  | .ok replacement => (.ok (), replacement)

/-- The file with other access flags. -/
def withAccessFlags (file : ClassFile) (flags : AccessFlags) : Except Error ClassFile :=
  (file.setAccessFlags flags).file

/-- The file with another version. -/
def withVersion (file : ClassFile) (version : ClassVersion) : Except Error ClassFile :=
  (file.setVersion version).file

/-- The file made of other bytes. -/
def withBytes (file : ClassFile) (bytes : Bytes) : Except Error ClassFile :=
  (file.replaceBytes bytes).file

/-- The header in one line; of the bytes only their number is told. -/
def describe (file : ClassFile) : String :=
  "ClassFile \x7b name: " ++ Quoted.text file.name
    ++ ", super_name: " ++ Quoted.optional file.superName
    ++ ", version: " ++ file.version.describe
    ++ ", access_flags: " ++ file.accessFlags.describe
    ++ ", len: " ++ toString file.bytes.length ++ " \x7d"

end ClassFile

end Understudy
