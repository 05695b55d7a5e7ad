/-!
Identities. Loaders, class path entries and defined classes are told apart by numbers that are given
out once each, in rising order.
-/

namespace Understudy

/-- The identity of a loader. -/
structure LoaderId where
  value : Nat
  deriving DecidableEq, Repr

/-- The identity of a class path entry. -/
structure EntryId where
  value : Nat
  deriving DecidableEq, Repr

/-- The identity of a defined class: no two definitions yield the same one. -/
structure ClassHandle where
  value : Nat
  deriving DecidableEq, Repr

/-- The text of a loader's identity. -/
def LoaderId.display (id : LoaderId) : String := "loader#" ++ toString id.value

/-- How descriptions write a loader, given what stands for its number. -/
def LoaderId.describe (label : LoaderId → String) (id : LoaderId) : String :=
  "LoaderId(" ++ label id ++ ")"

end Understudy
