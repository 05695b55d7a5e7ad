import Mathlib.Data.List.Basic
import Mathlib.Data.List.TakeWhile
import Understudy.Files.Path
import Understudy.Proofs.Text.LossyUtf8
import Understudy.Proofs.Text.Pieces

/-!
What paths ask for. A path below another one asks for the names of the other one, and then for what
it asks for itself. A path that leads downwards asks for some names, and never to go up.
-/

namespace Understudy.Path

theorem byteLength_append (s t : String) : byteLength (s ++ t) = byteLength s + byteLength t := by
  rw [byteLength, Utf8.length_encode, String.toList_append, Utf8.size_append]
  rfl

theorem toList_below (base path : String) :
    (base ++ "/" ++ path).toList = base.toList ++ '/' :: path.toList := by
  simp

theorem names_below (base path : String) :
    names (base ++ "/" ++ path) = names base ++ names path := by
  rw [names, Pieces.ofString, toList_below, Pieces.cut_append, List.map_append, List.filter_append]
  rfl

theorem names_slash (base : String) : names (base ++ "/") = names base := by
  have h : names (base ++ "/" ++ "") = names base ++ names "" := names_below base ""
  rwa [String.append_empty, show names "" = [] from rfl, List.append_nil] at h

/-- A path below another one stands behind a slash, which the other one ends in or is given. -/
theorem exists_join_eq {base path : String} (hsome : base ≠ "")
    (hrelative : isAbsolute path = false) :
    ∃ front, (base = front ∨ base = front ++ "/") ∧ join base path = front ++ "/" ++ path := by
  rw [join, if_neg (by simp [hrelative])]
  split
  · exact ⟨base, .inl rfl, rfl⟩
  · next hend =>
    obtain ⟨front, c, hbase⟩ : ∃ front c, base.toList = front ++ [c] :=
      (List.eq_nil_or_concat' base.toList).resolve_left fun h =>
        hsome (String.toList_eq_nil_iff.mp h)
    have hc : c = '/' := by simpa [hbase] using hend
    have heq : base = String.ofList front ++ "/" := by
      rw [← String.toList_inj, hbase, hc]
      simp
    exact ⟨_, .inr heq, by rw [← heq]⟩

/-- The steps of a path below another one. A slash at the end of the other one does not count. -/
theorem steps_join {base path : String} (hsome : base ≠ "") (hrelative : isAbsolute path = false)
    (hpath : path ≠ "") : steps (join base path) = names base ++ steps path := by
  obtain ⟨front, hfront, hjoin⟩ := exists_join_eq hsome hrelative
  have hnames : names base = names front := by
    rcases hfront with rfl | rfl
    · rfl
    · exact names_slash front
  have hlast : (front ++ "/" ++ path).toList.getLast? = path.toList.getLast? := by
    have hne : path.toList ≠ [] := fun h => hpath (String.toList_eq_nil_iff.mp h)
    rw [toList_below, List.getLast?_append_cons, List.getLast?_cons_of_ne_nil hne]
  rw [hjoin, hnames, steps, hlast, names_below, steps]
  split
  · rw [List.append_assoc]
  · rfl

/-- A slash at the end asks for a point. -/
theorem steps_eq_or (path : String) :
    steps path = names path ∨ steps path = names path ++ ["."] := by
  rw [steps]
  split
  · exact .inr rfl
  · exact .inl rfl

theorem steps_ne_nil {path : String} (h : names path ≠ []) : steps path ≠ [] := by
  rcases steps_eq_or path with heq | heq
  · rwa [heq]
  · rw [heq]
    exact List.append_ne_nil_of_left_ne_nil h _

theorem join_ne_empty {base path : String} (h : path ≠ "") : join base path ≠ "" := by
  rw [join]
  split
  · exact h
  · split
    · exact fun heq => h (String.append_eq_empty_iff.mp heq).2
    · exact fun heq => h (String.append_eq_empty_iff.mp heq).2

/-! ### The steps of a path -/

variable {path name : String}

/-- What can be one step of a path. -/
structure IsStep (step : String) : Prop where
  notEmpty : step ≠ ""
  noSlash : '/' ∉ step.toList
  noNul : '\x00' ∉ step.toList

theorem dropLeadingSlashes_eq_self_iff :
    dropLeadingSlashes path = path ↔ isAbsolute path = false := by
  rw [dropLeadingSlashes, ← String.toList_inj, String.toList_ofList, List.dropWhile_eq_self_iff,
    isAbsolute]
  cases path.toList <;> simp

/-! ### Paths that lead downwards -/

/-- The names in a path that are not points. -/
def plainNames (path : String) : List String := (names path).filter (· != ".")

theorem filter_steps (path : String) : (steps path).filter (· != ".") = plainNames path := by
  rcases steps_eq_or path with heq | heq
  · rw [heq, plainNames]
  · rw [heq, List.filter_append, plainNames]
    exact List.append_nil _

/-- The path leads downwards. -/
structure Downward (path : String) : Prop where
  relative : isAbsolute path = false
  named : plainNames path ≠ []
  noUp : ".." ∉ steps path

theorem downward_of_isDownward {path : String} (h : isDownward path = true) : Downward path := by
  simp only [isDownward, Bool.and_eq_true, Bool.not_eq_true', List.isEmpty_eq_false_iff,
    List.contains_eq_mem, decide_eq_false_iff_not] at h
  obtain ⟨⟨⟨hrelative, -⟩, hnamed⟩, hup⟩ := h
  refine ⟨hrelative, hnamed, fun hmem => hup ?_⟩
  rw [← plainNames, ← filter_steps]
  exact List.mem_filter.mpr ⟨hmem, rfl⟩

theorem Downward.names_ne_nil {path : String} (h : Downward path) : names path ≠ [] := fun hnil =>
  h.named (by rw [plainNames, hnil, List.filter_nil])

end Understudy.Path
