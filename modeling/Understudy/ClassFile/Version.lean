/-!
Class file versions. They are ordered by their major number, then by their minor number.
-/

namespace Understudy

/-- A class file version. -/
structure ClassVersion where
  major : UInt16
  minor : UInt16
  deriving DecidableEq, Repr

namespace ClassVersion

/-- The version that synthesized classes have unless another is asked for. -/
def standard : ClassVersion := ⟨52, 0⟩

/-- How two versions compare. -/
def order (a b : ClassVersion) : Ordering :=
  (compare a.major b.major).then (compare a.minor b.minor)

/-- Major and minor number with a point between them. -/
def display (v : ClassVersion) : String :=
  toString v.major ++ "." ++ toString v.minor

/-- The version with its fields named. -/
def describe (v : ClassVersion) : String :=
  "ClassVersion \x7b major: " ++ toString v.major ++ ", minor: " ++ toString v.minor ++ " \x7d"

end ClassVersion

end Understudy
