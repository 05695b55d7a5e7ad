import Understudy.Error

/-!
Numbers as bytes, most significant byte first, and bounded reads and writes of them at a position
of a buffer. A read or write that would pass the end of the buffer is refused as a whole.
-/

namespace Understudy

/-- A run of bytes. -/
abbrev Bytes := List UInt8

namespace BigEndian

/-- The number that the bytes write in base 256. -/
def decode (bytes : Bytes) : Nat :=
  bytes.foldl (fun n b => n * 256 + b.toNat) 0

/-- The `width` lowest bytes of a number. -/
def encode : Nat → Nat → Bytes
  | 0, _ => []
  | width + 1, n => encode width (n / 256) ++ [UInt8.ofNat n]

/-- Reads `width` bytes at `offset`: the number and the offset just behind it. -/
def readAt (buffer : Bytes) (width offset : Nat) : Except Error (Nat × Nat) :=
  if offset + width ≤ buffer.length then
    .ok (decode ((buffer.drop offset).take width), offset + width)
  else
    .error .outOfBounds

/-- Overwrites `width` bytes at `offset`: the new buffer and the offset just behind the number. -/
def writeAt (buffer : Bytes) (width offset value : Nat) : Except Error (Bytes × Nat) :=
  if offset + width ≤ buffer.length then
    .ok (buffer.take offset ++ encode width value ++ buffer.drop (offset + width), offset + width)
  else
    .error .outOfBounds

@[simp]
theorem length_encode (width n : Nat) : (encode width n).length = width := by
  induction width generalizing n with
  | zero => rfl
  | succ width ih => simp [encode, ih]

end BigEndian

end Understudy
