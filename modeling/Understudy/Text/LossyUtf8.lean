import Understudy.Bytes.BigEndian

/-!
Text as UTF-8 bytes. Writing is exact. Reading accepts any bytes: every maximal piece that begins a
well-formed character but does not finish one, and every byte that begins none, is read as one
replacement character U+FFFD.
-/

namespace Understudy.Utf8

/-- The bytes of a text. -/
def encode (text : String) : Bytes :=
  text.toList.flatMap String.utf8EncodeChar

/-- A character begun: how many more bytes it needs, the range the next one must lie in, and the
bits collected so far. -/
structure Begun where
  missing : Nat
  low : UInt8
  high : UInt8
  value : Nat
  deriving DecidableEq, Repr

/-- What a leading byte announces. The narrowed ranges keep out overlong forms, surrogates and
values above U+10FFFF. -/
def opening? (b : UInt8) : Option Begun :=
  if 0xC2 ≤ b ∧ b ≤ 0xDF then some ⟨1, 0x80, 0xBF, b.toNat - 0xC0⟩
  else if b = 0xE0 then some ⟨2, 0xA0, 0xBF, 0⟩
  else if b = 0xED then some ⟨2, 0x80, 0x9F, 0xD⟩
  else if 0xE1 ≤ b ∧ b ≤ 0xEF then some ⟨2, 0x80, 0xBF, b.toNat - 0xE0⟩
  else if b = 0xF0 then some ⟨3, 0x90, 0xBF, 0⟩
  else if 0xF1 ≤ b ∧ b ≤ 0xF3 then some ⟨3, 0x80, 0xBF, b.toNat - 0xF0⟩
  else if b = 0xF4 then some ⟨3, 0x80, 0x8F, 4⟩
  else none

/-- The character that stands for what could not be read. -/
def replacement : Char := '\uFFFD'

/-- A reader's state: the characters read, last first, and the character begun. -/
structure Reading where
  read : List Char
  begun : Option Begun
  deriving DecidableEq, Repr

namespace Reading

/-- A byte met where no character is begun. -/
def fresh (read : List Char) (b : UInt8) : Reading :=
  if b < 0x80 then ⟨Char.ofNat b.toNat :: read, none⟩
  else match opening? b with
    | some begun => ⟨read, some begun⟩
    | none => ⟨replacement :: read, none⟩

/-- One byte more. A byte that cannot continue the character begun ends it as a replacement and is
then met afresh. -/
def step (state : Reading) (b : UInt8) : Reading :=
  match state.begun with
  | none => fresh state.read b
  | some begun =>
    if begun.low ≤ b ∧ b ≤ begun.high then
      let value := begun.value * 64 + (b.toNat - 0x80)
      if begun.missing = 1 then ⟨Char.ofNat value :: state.read, none⟩
      else ⟨state.read, some ⟨begun.missing - 1, 0x80, 0xBF, value⟩⟩
    else
      fresh (replacement :: state.read) b

/-- The characters read once no byte is left. -/
def finish (state : Reading) : List Char :=
  match state.begun with
  | none => state.read.reverse
  | some _ => (replacement :: state.read).reverse

end Reading

/-- The text that the bytes are read as. -/
def decodeLossy (bytes : Bytes) : String :=
  String.ofList (bytes.foldl Reading.step ⟨[], none⟩).finish

end Understudy.Utf8
