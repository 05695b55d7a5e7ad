import Understudy.Bytes.BigEndian
import Understudy.Text.Hex

/-!
The SHA-1 digest. A message is padded to a whole number of blocks of 64 bytes; each block is mixed
into five words of 32 bits in eighty rounds, over a schedule that extends the sixteen words of the
block.
-/

namespace Understudy.Sha1

/-- The size of a block in bytes. -/
def blockSize : Nat := 64

/-- The five words that the digest is made of. -/
structure State where
  a : UInt32
  b : UInt32
  c : UInt32
  d : UInt32
  e : UInt32
  deriving DecidableEq, Repr

namespace State

/-- The words before the first block. -/
def initial : State := ⟨0x67452301, 0xEFCDAB89, 0x98BADCFE, 0x10325476, 0xC3D2E1F0⟩

/-- Adds the words of two states. -/
def add (s t : State) : State := ⟨s.a + t.a, s.b + t.b, s.c + t.c, s.d + t.d, s.e + t.e⟩

/-- The words as bytes. -/
def toBytes (s : State) : Bytes :=
  [s.a, s.b, s.c, s.d, s.e].flatMap fun word => BigEndian.encode 4 word.toNat

end State

/-- Rotates a word to the left. -/
def rotate (n : UInt32) (word : UInt32) : UInt32 := (word <<< n) ||| (word >>> (32 - n))

/-- A one bit, zeros up to eight bytes before the end of a block, and the length in bits. -/
def padding (length : Nat) : Bytes :=
  0x80 :: List.replicate ((119 - length % blockSize) % blockSize) 0
    ++ BigEndian.encode 8 (8 * length)

/-- The next `n` words of a block. -/
def words : Nat → Bytes → List UInt32
  | 0, _ => []
  | n + 1, bytes => (BigEndian.decode (bytes.take 4)).toUInt32 :: words n (bytes.drop 4)

/-- How round `t` mixes three words, and the constant it adds. -/
def mixing (t : Nat) (b c d : UInt32) : UInt32 × UInt32 :=
  if t < 20 then ((b &&& c) ||| (~~~b &&& d), 0x5A827999)
  else if t < 40 then (b ^^^ c ^^^ d, 0x6ED9EBA1)
  else if t < 60 then ((b &&& c) ||| (b &&& d) ||| (c &&& d), 0x8F1BBCDC)
  else (b ^^^ c ^^^ d, 0xCA62C1D6)

/-- Round `t`, which uses up the first word of the schedule's window. -/
def State.round (s : State) (t : Nat) (word : UInt32) : State :=
  let (mixed, constant) := mixing t s.b s.c s.d
  ⟨rotate 5 s.a + mixed + s.e + constant + word, s.a, rotate 30 s.b, s.c, s.d⟩

/-- The window of sixteen words one place further along the schedule. -/
def advance (window : List UInt32) : List UInt32 :=
  let word := fun i => window.getD i 0
  window.tail ++ [rotate 1 (word 13 ^^^ word 8 ^^^ word 2 ^^^ word 0)]

/-- The last `left` of the eighty rounds. -/
def rounds : Nat → List UInt32 → State → State
  | 0, _, s => s
  | left + 1, window, s =>
    rounds left (advance window) (s.round (79 - left) (window.getD 0 0))

/-- Mixes one block in. -/
def compress (s : State) (block : Bytes) : State :=
  s.add (rounds 80 (words 16 block) s)

/-- Mixes `n` blocks in. -/
def absorb : Nat → Bytes → State → State
  | 0, _, s => s
  | n + 1, bytes, s => absorb n (bytes.drop blockSize) (compress s (bytes.take blockSize))

/-- The digest of a message: twenty bytes. -/
def digest (message : Bytes) : Bytes :=
  let padded := message ++ padding message.length
  (absorb (padded.length / blockSize) padded .initial).toBytes

/-- The digest in hexadecimal. -/
def hexDigest (message : Bytes) : String := Hex.ofBytes (digest message)

end Understudy.Sha1
