import Understudy.ClassFile.Basic

/-!
The grammar of class files, put without the way in which they are read: the constants one after the
other, each a tag and what the tag announces, between fields of a fixed width. Constants are
numbered by slots from one on, and two of them take two slots each.
-/

namespace Understudy.Grammar

open BigEndian

/-- The kinds of constants. -/
inductive Tag where
  | utf8
  | integer
  | float
  | long
  | double
  | classRef
  | string
  | fieldRef
  | methodRef
  | interfaceMethodRef
  | nameAndType
  | methodHandle
  | methodType
  | dynamic
  | invokeDynamic
  | moduleRef
  | packageRef
  deriving DecidableEq, Repr

namespace Tag

/-- The byte that marks a constant of this kind. -/
def byte : Tag → UInt8
  | utf8 => 1
  | integer => 3
  | float => 4
  | long => 5
  | double => 6
  | classRef => 7
  | string => 8
  | fieldRef => 9
  | methodRef => 10
  | interfaceMethodRef => 11
  | nameAndType => 12
  | methodHandle => 15
  | methodType => 16
  | dynamic => 17
  | invokeDynamic => 18
  | moduleRef => 19
  | packageRef => 20

/-- The number of slots that a constant takes. -/
def slots : Tag → Nat
  | long | double => 2
  | _ => 1

/-- Whether some bytes may follow the tag. -/
def Admits : Tag → Bytes → Prop
  | utf8, payload =>
    ∃ text : Bytes, text.length < UInt16.size ∧ payload = encode 2 text.length ++ text
  | classRef, payload | string, payload | methodType, payload | moduleRef, payload
  | packageRef, payload => payload.length = 2
  | methodHandle, payload => payload.length = 3
  | integer, payload | float, payload | fieldRef, payload | methodRef, payload
  | interfaceMethodRef, payload | nameAndType, payload | dynamic, payload
  | invokeDynamic, payload => payload.length = 4
  | long, payload | double, payload => payload.length = 8

end Tag

/-- A constant as it is written. -/
structure Item where
  tag : Tag
  payload : Bytes
  admits : tag.Admits payload

/-- The bytes of a constant. -/
def Item.bytes (item : Item) : Bytes := item.tag.byte :: item.payload

/-- The number of slots that some constants take. -/
def slotCount : List Item → Nat
  | [] => 0
  | item :: items => item.tag.slots + slotCount items

/-- A constant is numbered by the first slot that it takes. -/
def HoldsAt (items : List Item) (slot : Nat) (item : Item) : Prop :=
  ∃ before behind, items = before ++ item :: behind ∧ slot = 1 + slotCount before

/-- Slots that no constant is numbered by: the one in front of all constants, and the second ones
of constants that take two. -/
def Unnumbered (items : List Item) (slot : Nat) : Prop :=
  slot = 0 ∨ ∃ before item behind, items = before ++ item :: behind ∧ item.tag.slots = 2 ∧
    slot = 1 + slotCount before + 1

/-- A slot holds a reference to a class, whose name is in another slot. -/
def RefersTo (items : List Item) (slot : Nat) (nameSlot : UInt16) : Prop :=
  ∃ item, HoldsAt items slot item ∧ item.tag = .classRef ∧
    item.payload = encode 2 nameSlot.toNat

/-- A slot holds a text. -/
def Spells (items : List Item) (slot : Nat) (text : Bytes) : Prop :=
  ∃ item, HoldsAt items slot item ∧ item.tag = .utf8 ∧
    item.payload = encode 2 text.length ++ text

/-- A slot names a class: it refers to a slot that holds the name as class files write it. -/
def NamesClass (items : List Item) (slot : UInt16) (name : String) : Prop :=
  ∃ nameSlot text, RefersTo items slot.toNat nameSlot ∧ Spells items nameSlot.toNat text ∧
    name = ClassName.binary (Utf8.decodeLossy text)

/-- A slot names a superclass, or is zero where there is none. -/
def NamesSuper (items : List Item) (slot : UInt16) : Option String → Prop
  | none => slot = 0
  | some name => slot ≠ 0 ∧ NamesClass items slot name

/-- A class file as it is written. The constants take exactly the slots from one on that the count
leaves. -/
structure Sentence where
  version : ClassVersion
  count : UInt16
  items : List Item
  accessFlags : AccessFlags
  thisSlot : UInt16
  superSlot : UInt16
  tail : Bytes
  fills : 1 + slotCount items = count.toNat

namespace Sentence

/-- The bytes of the constants. -/
def pool (w : Sentence) : Bytes := w.items.flatMap Item.bytes

/-- The bytes of the whole. -/
def bytes (w : Sentence) : Bytes :=
  [0xCA, 0xFE, 0xBA, 0xBE] ++ encode 2 w.version.minor.toNat ++ encode 2 w.version.major.toNat
    ++ encode 2 w.count.toNat ++ w.pool ++ encode 2 w.accessFlags.bits.toNat
    ++ encode 2 w.thisSlot.toNat ++ encode 2 w.superSlot.toNat ++ w.tail

/-- The class file that it is when its two slots name these. -/
def file (w : Sentence) (name : String) (superName : Option String) : ClassFile where
  bytes := w.bytes
  name := name
  superName := superName
  version := w.version
  accessFlags := w.accessFlags
  flagsOffset := 10 + w.pool.length

end Sentence

end Understudy.Grammar
