import Understudy.ClassFile.ConstantPool
import Understudy.Proofs.Bytes.Cursor

/-!
Reading a constant pool depends on the bytes of the pool alone: neither the bytes in front of it nor
those behind it have a say in which constants are read, or in why there are none.
-/

namespace Understudy

open Cursor

/-- Every payload is read by one step, whose answer it turns into a constant. -/
theorem Payload.read_eq (payload : Payload) :
    payload.read = match payload with
      | text => map Constant.text counted
      | classRef => map Constant.classRef (number 2)
      | fixed size | wide size => map (fun _ => Constant.other) (skip size) := by
  funext c
  cases payload with
  | text =>
    simp only [Payload.read, Cursor.map, Cursor.andThen]
    rcases c.counted with ⟨_ | _, _⟩ <;> rfl
  | classRef =>
    simp only [Payload.read, Cursor.map, Cursor.andThen]
    rcases c.number 2 with ⟨_ | _, _⟩ <;> rfl
  | fixed size | wide size =>
    simp only [Payload.read, Cursor.map, Cursor.andThen]
    rcases c.skip size with ⟨_ | _, _⟩ <;> rfl

theorem Payload.framed_read (payload : Payload) : Framed payload.read := by
  rw [Payload.read_eq]
  cases payload with
  | text => exact framed_counted.map _
  | classRef => exact (framed_number 2).map _
  | fixed size | wide size => exact (framed_skip size).map _

theorem Payload.steady_read (payload : Payload) : Steady payload.read := by
  rw [Payload.read_eq]
  cases payload with
  | text => exact steady_counted.map _
  | classRef => exact (steady_number 2).map _
  | fixed size | wide size => exact (steady_skip size).map _

namespace ConstantPool

/-- What follows the tag of the constant whose first slot is `slot`. -/
def readTagged (slot tag : Nat) : Cursor → Answer (Payload × Constant) :=
  match Payload.ofTag? tag with
  | none => fun c => (.error (.malformed (.unknownTag tag slot) none), c)
  | some payload => map (Prod.mk payload) payload.read

theorem readConstant_eq (slot : Nat) :
    readConstant slot = andThen (number 1) (readTagged slot) := by
  funext c
  rw [readConstant, Cursor.andThen]
  rcases c.number 1 with ⟨_ | tag, next⟩
  · rfl
  · simp only [readTagged]
    cases Payload.ofTag? tag with
    | none => rfl
    | some payload =>
      simp only [Cursor.map, Cursor.andThen]
      rcases payload.read next with ⟨_ | _, _⟩ <;> rfl

theorem framed_readTagged (slot tag : Nat) : Framed (readTagged slot tag) := by
  rw [readTagged]
  split
  · exact framed_error _
  · next payload _ =>
    exact payload.framed_read.map _

theorem framed_readConstant (slot : Nat) : Framed (readConstant slot) := by
  rw [readConstant_eq]
  exact (framed_number 1).andThen (framed_readTagged slot)

theorem steady_readTagged (slot tag : Nat) : Steady (readTagged slot tag) := by
  rw [readTagged]
  split
  · exact steady_error _
  · next payload _ =>
    exact payload.steady_read.map _

theorem steady_readConstant (slot : Nat) : Steady (readConstant slot) := by
  rw [readConstant_eq]
  exact (steady_number 1).andThen (steady_readTagged slot)

/-- The slots that are left once a constant was read, and the reading of them. -/
def readBehind (count missing : Nat) (filled : List Constant) :
    Payload × Constant → Cursor → Answer (List Constant)
  | (.wide _, constant) =>
    match missing with
    | 0 => fun c => (.error (.malformed (.poolOverflow count) none), c)
    | left + 1 => readSlots count left (.unused :: constant :: filled)
  | (_, constant) => readSlots count missing (constant :: filled)

theorem readSlots_succ (count missing : Nat) (filled : List Constant) :
    readSlots count (missing + 1) filled =
      andThen (readConstant (count - (missing + 1))) (readBehind count missing filled) := by
  funext c
  rw [readSlots, Cursor.andThen]
  rcases readConstant (count - (missing + 1)) c with ⟨_ | ⟨payload, constant⟩, next⟩
  · rfl
  · cases payload with
    | wide size => cases missing <;> rfl
    | text => rfl
    | classRef => rfl
    | fixed size => rfl

/-- By induction on the slots that are missing; a wide constant fills two of them. -/
theorem framed_readSlots (count : Nat) : ∀ (missing : Nat) (filled : List Constant),
    Framed (readSlots count missing filled)
  | 0, filled => framed_pure filled.reverse
  | missing + 1, filled => by
    rw [readSlots_succ]
    refine (framed_readConstant _).andThen ?_
    rintro ⟨payload, constant⟩
    have hone : Framed (readSlots count missing (constant :: filled)) :=
      framed_readSlots count missing _
    cases payload with
    | text => exact hone
    | classRef => exact hone
    | fixed size => exact hone
    | wide size =>
      cases missing with
      | zero => exact framed_error _
      | succ left => exact framed_readSlots count left _

/-- By induction on the slots that are missing, as for `framed_readSlots`. -/
theorem steady_readSlots (count : Nat) : ∀ (missing : Nat) (filled : List Constant),
    Steady (readSlots count missing filled)
  | 0, filled => steady_pure filled.reverse
  | missing + 1, filled => by
    rw [readSlots_succ]
    refine (steady_readConstant _).andThen ?_
    rintro ⟨payload, constant⟩
    have hone : Steady (readSlots count missing (constant :: filled)) :=
      steady_readSlots count missing _
    cases payload with
    | text => exact hone
    | classRef => exact hone
    | fixed size => exact hone
    | wide size =>
      cases missing with
      | zero => exact steady_error _
      | succ left => exact steady_readSlots count left _

/-- Reads the constants of a pool of a given size. -/
def readSized : Nat → Cursor → Answer (List Constant)
  | 0 => fun c => (.error (.malformed (.poolOverflow 0) none), c)
  | missing + 1 => readSlots (missing + 1) missing [.unused]

theorem read_eq : ConstantPool.read = andThen (number 2) readSized := by
  funext c
  rw [ConstantPool.read, Cursor.andThen]
  rcases c.number 2 with ⟨_ | _ | _, _⟩ <;> rfl

theorem framed_read : Framed ConstantPool.read := by
  rw [read_eq]
  refine (framed_number 2).andThen fun count => ?_
  cases count with
  | zero => exact framed_error _
  | succ missing => exact framed_readSlots (missing + 1) missing [.unused]

theorem steady_read : Steady ConstantPool.read := by
  rw [read_eq]
  refine (steady_number 2).andThen fun count => ?_
  cases count with
  | zero => exact steady_error _
  | succ missing => exact steady_readSlots (missing + 1) missing [.unused]

end ConstantPool

end Understudy
