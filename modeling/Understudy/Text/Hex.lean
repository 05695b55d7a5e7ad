/-!
Numbers in hexadecimal.
-/

namespace Understudy.Hex

/-- The lower case digits of a number, with leading zeros up to `width`. -/
def digits (width n : Nat) : List Char :=
  let significant := Nat.toDigits 16 n
  List.replicate (width - significant.length) '0' ++ significant

/-- A number in lower case, with leading zeros up to `width` digits. -/
def lower (width n : Nat) : String := String.ofList (digits width n)

/-- A number in upper case, with leading zeros up to `width` digits. -/
def upper (width n : Nat) : String := String.ofList ((digits width n).map Char.toUpper)

/-- Bytes as two lower case digits each. -/
def ofBytes (bytes : List UInt8) : String :=
  String.ofList (bytes.flatMap fun b => digits 2 b.toNat)

end Understudy.Hex
