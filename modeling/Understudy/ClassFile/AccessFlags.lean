import Understudy.Text.Hex

/-!
The access flags of a class: sixteen bits, nine of which have names. Bits without a name are kept.
-/

namespace Understudy

/-- The sixteen flag bits of a class. -/
structure AccessFlags where
  bits : UInt16
  deriving DecidableEq, Repr

namespace AccessFlags

def publicBit : AccessFlags := ⟨0x0001⟩
def finalBit : AccessFlags := ⟨0x0010⟩
def superBit : AccessFlags := ⟨0x0020⟩
def interfaceBit : AccessFlags := ⟨0x0200⟩
def abstractBit : AccessFlags := ⟨0x0400⟩
def syntheticBit : AccessFlags := ⟨0x1000⟩
def annotationBit : AccessFlags := ⟨0x2000⟩
def enumBit : AccessFlags := ⟨0x4000⟩
def moduleBit : AccessFlags := ⟨0x8000⟩

/-- No flag. -/
def empty : AccessFlags := ⟨0⟩

/-- The flags of either. -/
def union (a b : AccessFlags) : AccessFlags := ⟨a.bits ||| b.bits⟩

/-- The flags of the first that the second lacks. -/
def difference (a b : AccessFlags) : AccessFlags := ⟨a.bits &&& ~~~b.bits⟩

/-- Whether the first has all flags of the second. -/
def contains (a b : AccessFlags) : Bool := a.bits &&& b.bits == b.bits

def isEmpty (a : AccessFlags) : Bool := a.bits == 0

/-- The named flags, by rising bit. -/
def named : List (String × AccessFlags) :=
  [("PUBLIC", publicBit), ("FINAL", finalBit), ("SUPER", superBit), ("INTERFACE", interfaceBit),
    ("ABSTRACT", abstractBit), ("SYNTHETIC", syntheticBit), ("ANNOTATION", annotationBit),
    ("ENUM", enumBit), ("MODULE", moduleBit)]

/-- The bits that have no name. -/
def unnamed (a : AccessFlags) : AccessFlags :=
  named.foldl (fun left (_, flag) => left.difference flag) a

/-- A number in lower case hexadecimal behind `0x`. -/
def hexText (bits : UInt16) : String :=
  "0x" ++ Hex.lower 1 bits.toNat

/-- The names of the flags set, then the bits that have none as one number; an empty set of flags
shows as the number zero. -/
def describe (a : AccessFlags) : String :=
  let names := (named.filter fun (_, flag) => a.contains flag).map Prod.fst
  let rest := if a.unnamed.isEmpty then [] else [hexText a.unnamed.bits]
  let parts := if a.isEmpty then [hexText 0] else names ++ rest
  "AccessFlags(" ++ " | ".intercalate parts ++ ")"

end AccessFlags

end Understudy
