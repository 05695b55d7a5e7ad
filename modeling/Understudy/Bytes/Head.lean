import Understudy.Bytes.Cursor

/-!
A place in a buffer that is counted in words of 64 bits, and what is read and written there. Where
an access ends is a sum of words, which may wrap around; such an access is refused, as is one that
would pass the end of the buffer.
-/

namespace Understudy

/-- A buffer, and the place in it where the next access begins. -/
structure Head where
  buffer : Bytes
  offset : UInt64
  deriving DecidableEq, Repr

namespace Head

/-- The start of a buffer. -/
def start (buffer : Bytes) : Head := ⟨buffer, 0⟩

/-- Where the next `count` bytes end, unless the sum wraps around or the buffer ends before. -/
def stop? (count : UInt64) (h : Head) : Option UInt64 :=
  let stop := h.offset + count
  if h.offset ≤ stop ∧ stop.toNat ≤ h.buffer.length then some stop else none

/-- Takes the next `count` bytes. -/
def take (count : UInt64) (h : Head) : Except Error Bytes × Head :=
  match h.stop? count with
  | some stop => (.ok ((h.buffer.take stop.toNat).drop h.offset.toNat), ⟨h.buffer, stop⟩)
  | none => (.error .outOfBounds, h)

/-- Passes over the next `count` bytes. -/
def skip (count : UInt64) (h : Head) : Except Error Unit × Head :=
  match h.stop? count with
  | some stop => (.ok (), ⟨h.buffer, stop⟩)
  | none => (.error .outOfBounds, h)

/-- Reads a number of `width` bytes. -/
def read (width : UInt64) (h : Head) : Except Error (BitVec (8 * width.toNat)) × Head :=
  match h.take width with
  | (.ok bytes, next) => (.ok (.ofNat _ (BigEndian.decode bytes)), next)
  | (.error e, h) => (.error e, h)

/-- Reads a length of two bytes and then takes that many bytes. -/
def counted (h : Head) : Except Error Bytes × Head :=
  match h.read 2 with
  | (.ok length, next) => next.take (.ofBitVec (length.setWidth 64))
  | (.error e, h) => (.error e, h)

/-- Writes a number over the next `width` bytes. -/
def write (width : UInt64) (value : BitVec (8 * width.toNat)) (h : Head) :
    Except Error Unit × Head :=
  match h.stop? width with
  | some stop =>
    (.ok (), ⟨h.buffer.take h.offset.toNat ++ BigEndian.encode width.toNat value.toNat
      ++ h.buffer.drop stop.toNat, stop⟩)
  | none => (.error .outOfBounds, h)

end Head

end Understudy
