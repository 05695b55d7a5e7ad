import Understudy.Bytes.BigEndian

/-!
A reading position in a run of bytes. Every step answers and tells where the reader stands
afterwards. A step that takes a fixed number of bytes and does not find them leaves the reader where
it stood; one that takes a length first has moved behind the length when the bytes it announces are
missing.
-/

namespace Understudy

/-- How many bytes lie behind the reading position, and the bytes ahead of it. -/
structure Cursor where
  position : Nat
  rest : Bytes
  deriving DecidableEq, Repr

namespace Cursor

/-- What a step answers, and where the reader stands afterwards. -/
abbrev Answer (α : Type) := Except Error α × Cursor

/-- The start of a buffer. -/
def start (buffer : Bytes) : Cursor := ⟨0, buffer⟩

/-- The number of bytes ahead. -/
def remaining (c : Cursor) : Nat := c.rest.length

/-- Whether a byte lies ahead. -/
def hasMore (c : Cursor) : Bool := !c.rest.isEmpty

/-- Takes the next `n` bytes. -/
def take (n : Nat) (c : Cursor) : Answer Bytes :=
  let (front, back) := c.rest.splitAt n
  if front.length = n then (.ok front, ⟨c.position + n, back⟩) else (.error .outOfBounds, c)

/-- Passes over the next `n` bytes. -/
def skip (n : Nat) (c : Cursor) : Answer Unit :=
  match c.take n with
  | (.ok _, next) => (.ok (), next)
  | (.error e, c) => (.error e, c)

/-- Takes a number of `width` bytes. -/
def number (width : Nat) (c : Cursor) : Answer Nat :=
  match c.take width with
  | (.ok bytes, next) => (.ok (BigEndian.decode bytes), next)
  | (.error e, c) => (.error e, c)

/-- Takes a length of two bytes and then that many bytes. -/
def counted (c : Cursor) : Answer Bytes :=
  match c.number 2 with
  | (.ok n, next) => next.take n
  | (.error e, c) => (.error e, c)

theorem take_eq (n : Nat) (c : Cursor) :
    c.take n = if n ≤ c.rest.length then (.ok (c.rest.take n), ⟨c.position + n, c.rest.drop n⟩)
      else (.error .outOfBounds, c) := by
  simp only [take, List.splitAt_eq, List.length_take]
  by_cases h : n ≤ c.rest.length
  · simp [h]
  · simp [h, Nat.min_eq_right (by omega : c.rest.length ≤ n), show c.rest.length ≠ n by omega]

end Cursor

end Understudy
