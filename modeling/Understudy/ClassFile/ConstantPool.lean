import Understudy.Bytes.Cursor
import Understudy.Text.LossyUtf8
import Understudy.ClassFile.Name

/-!
The constant pool of a class file. Slot zero is never used; every constant takes one slot, except
that numbers of eight bytes take two, the second of which stays unused. Of the constants only texts
and references to classes are kept, because they alone decide how a class is named.
-/

namespace Understudy

/-- What a slot of the constant pool holds. -/
inductive Constant where
  | unused
  | text (payload : Bytes)
  | classRef (nameSlot : Nat)
  | other
  deriving DecidableEq, Repr

/-- What follows the tag of a constant. -/
inductive Payload where
  | text
  | classRef
  | fixed (size : Nat)
  | wide (size : Nat)
  deriving DecidableEq, Repr

/-- The payload that each known tag announces. -/
def Payload.ofTag? (tag : Nat) : Option Payload :=
  match tag with
  | 1 => some .text
  | 7 => some .classRef
  | 8 | 16 | 19 | 20 => some (.fixed 2)
  | 15 => some (.fixed 3)
  | 3 | 4 | 9 | 10 | 11 | 12 | 17 | 18 => some (.fixed 4)
  | 5 | 6 => some (.wide 8)
  | _ => none

/-- Reads a payload: the constant it makes. -/
def Payload.read (payload : Payload) (c : Cursor) : Cursor.Answer Constant :=
  match payload with
  | text =>
    match c.counted with
    | (.ok bytes, next) => (.ok (.text bytes), next)
    | (.error e, c) => (.error e, c)
  | classRef =>
    match c.number 2 with
    | (.ok slot, next) => (.ok (.classRef slot), next)
    | (.error e, c) => (.error e, c)
  | fixed size | wide size =>
    match c.skip size with
    | (.ok _, next) => (.ok .other, next)
    | (.error e, c) => (.error e, c)

namespace ConstantPool

/-- Reads one constant, whose first slot is `slot`: the kind of its payload, and the constant. -/
def readConstant (slot : Nat) (c : Cursor) : Cursor.Answer (Payload × Constant) :=
  match c.number 1 with
  | (.error e, c) => (.error e, c)
  | (.ok tag, next) =>
    match Payload.ofTag? tag with
    | none => (.error (.malformed (.unknownTag tag slot) none), next)
    | some payload =>
      match payload.read next with
      | (.ok constant, next) => (.ok (payload, constant), next)
      | (.error e, c) => (.error e, c)

/-- Reads constants until `missing` more slots are filled. `filled` holds the slots so far, last
first, and `count` is the size that the pool claims to have. -/
def readSlots (count : Nat) : Nat → List Constant → Cursor → Cursor.Answer (List Constant)
  | 0, filled, c => (.ok filled.reverse, c)
  | missing + 1, filled, c =>
    match readConstant (count - (missing + 1)) c with
    | (.error e, c) => (.error e, c)
    | (.ok (.wide _, constant), next) =>
      match missing with
      | 0 => (.error (.malformed (.poolOverflow count) none), next)
      | left + 1 => readSlots count left (.unused :: constant :: filled) next
    | (.ok (_, constant), next) => readSlots count missing (constant :: filled) next

/-- Reads the size of the pool and then its constants. Slot zero counts as one of the slots, so a
size of zero cannot be kept. -/
def read (c : Cursor) : Cursor.Answer (List Constant) :=
  match c.number 2 with
  | (.error e, c) => (.error e, c)
  | (.ok 0, next) => (.error (.malformed (.poolOverflow 0) none), next)
  | (.ok (missing + 1), next) => readSlots (missing + 1) missing [.unused] next

/-- The name of the class that a slot refers to. -/
def className (pool : List Constant) (slot : Nat) : Except Error String :=
  match pool[slot]? with
  | some (.classRef nameSlot) =>
    match pool[nameSlot]? with
    | some (.text payload) => .ok (ClassName.binary (Utf8.decodeLossy payload))
    | _ => .error (.malformed (.nameNotText slot nameSlot) none)
  | _ => .error (.malformed (.notClassReference slot) none)

/-- The name of the class that a slot refers to, where slot zero refers to none. -/
def className? (pool : List Constant) (slot : Nat) : Except Error (Option String) :=
  if slot = 0 then .ok none else (className pool slot).map some

end ConstantPool

end Understudy
