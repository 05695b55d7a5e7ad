import Understudy.ClassFile.Basic

/-!
Stubs: the smallest class files. A stub has a name, a superclass, access flags and a version, and no
interfaces, fields, methods or attributes.
-/

namespace Understudy

/-- What a synthesized class is made from. -/
structure Stub where
  name : String
  superName : String := "java.lang.Object"
  accessFlags : AccessFlags := AccessFlags.publicBit.union AccessFlags.superBit
  version : ClassVersion := .standard
  deriving DecidableEq, Repr

namespace Stub

/-- The longest text, in bytes, that a constant can hold. -/
def maxTextLength : Nat := 65535

/-- A text constant. A text that is too long is cut at the last byte that fits, also inside a
character. -/
def encodeText (text : String) : Bytes :=
  let payload := (Utf8.encode text).take maxTextLength
  1 :: BigEndian.encode 2 payload.length ++ payload

/-- A constant that refers to the class named by a slot. -/
def encodeClassRef (nameSlot : Nat) : Bytes :=
  7 :: BigEndian.encode 2 nameSlot

/-- The bytes of the stub: four constants for the two names, the flags, the slots of the two
classes, and four empty tables. -/
def encode (stub : Stub) : Bytes :=
  BigEndian.encode 4 ClassFile.magic
    ++ BigEndian.encode 2 stub.version.minor.toNat
    ++ BigEndian.encode 2 stub.version.major.toNat
    ++ BigEndian.encode 2 5
    ++ encodeText (ClassName.internal stub.name)
    ++ encodeClassRef 1
    ++ encodeText (ClassName.internal stub.superName)
    ++ encodeClassRef 3
    ++ BigEndian.encode 2 stub.accessFlags.bits.toNat
    ++ BigEndian.encode 2 2
    ++ BigEndian.encode 2 4
    ++ List.replicate 8 0

end Stub

end Understudy
