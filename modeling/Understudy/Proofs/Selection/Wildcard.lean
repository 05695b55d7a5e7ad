import Understudy.Selection.Pattern

/-!
What the pieces of a pattern with stars match: the names that are the pieces in order with any text
between one and the next. Looking for the first occurrence of each piece never goes back, and need
not: what follows the first occurrence ends with what follows any other, so whatever can be placed
behind the other can be placed behind the first. Main statement: `matchName_eq_true_iff`.
-/

namespace Understudy.Wildcard

/-- The text is, for each piece in order, some gap and the piece. -/
def Fits (pieces : List (List Char)) (s : List Char) : Prop :=
  ∃ gaps : List (List Char), gaps.length = pieces.length ∧
    s = (List.zipWith (· ++ ·) gaps pieces).flatten

/-- The name is the first piece and then, for each other piece in order, some gap and the piece:
`s₀ x₁ s₁ x₂ … xₖ sₖ` for pieces `s₀, s₁, …, sₖ` and gaps `x₁, …, xₖ`. -/
def Spells (pieces : List (List Char)) (name : List Char) : Prop :=
  ∃ first rest behind, pieces = first :: rest ∧ name = first ++ behind ∧ Fits rest behind

/-! ### Placing pieces one by one -/

theorem fits_nil {s : List Char} : Fits [] s ↔ s = [] := by
  constructor
  · rintro ⟨gaps, hlength, rfl⟩
    rw [List.eq_nil_of_length_eq_zero hlength]
    rfl
  · rintro rfl
    exact ⟨[], rfl, rfl⟩

theorem fits_cons {piece : List Char} {rest : List (List Char)} {s : List Char} :
    Fits (piece :: rest) s ↔ ∃ gap behind, s = gap ++ piece ++ behind ∧ Fits rest behind := by
  constructor
  · rintro ⟨gaps, hlength, rfl⟩
    match gaps, hlength with
    | gap :: gaps, hlength =>
      refine ⟨gap, (List.zipWith (· ++ ·) gaps rest).flatten, rfl, gaps, ?_, rfl⟩
      simpa using hlength
  · rintro ⟨gap, behind, rfl, gaps, hlength, rfl⟩
    exact ⟨gap :: gaps, by simp [hlength], rfl⟩

/-- The exchange: what fits still fits when more text stands in front of it. -/
theorem Fits.append_left {pieces : List (List Char)} {s : List Char} (h : Fits pieces s)
    (hne : pieces ≠ []) (front : List Char) : Fits pieces (front ++ s) := by
  cases pieces with
  | nil => exact absurd rfl hne
  | cons piece rest =>
    obtain ⟨gap, behind, rfl, hrest⟩ := fits_cons.mp h
    exact fits_cons.mpr ⟨front ++ gap, behind, by simp, hrest⟩

/-- Empty pieces fit anywhere. -/
theorem fits_of_forall_eq_nil {pieces : List (List Char)} (hne : pieces ≠ [])
    (h : ∀ piece ∈ pieces, piece = []) (s : List Char) : Fits pieces s := by
  induction pieces with
  | nil => exact absurd rfl hne
  | cons piece rest ih =>
    obtain rfl := h piece List.mem_cons_self
    cases rest with
    | nil => exact fits_cons.mpr ⟨s, [], by simp, fits_nil.mpr rfl⟩
    | cons next rest =>
      refine fits_cons.mpr ⟨[], s, rfl, ih (by simp) fun p hp => h p (List.mem_cons_of_mem _ hp)⟩

/-! ### The first occurrence of a piece -/

theorem afterFirst?_sound {piece s rest : List Char} (h : afterFirst? piece s = some rest) :
    ∃ gap, s = gap ++ piece ++ rest := by
  induction s with
  | nil =>
    cases piece with
    | nil =>
      obtain rfl := Option.some.inj h
      exact ⟨[], rfl⟩
    | cons a piece => cases h
  | cons c s ih =>
    rw [afterFirst?] at h
    split at h
    · next found hfound =>
      obtain rfl := Option.some.inj h
      exact ⟨[], Pieces.dropLead?_eq_some_iff.mp hfound⟩
    · obtain ⟨gap, rfl⟩ := ih h
      exact ⟨c :: gap, rfl⟩

/-- Where a piece occurs at all, its first occurrence is found, and what follows the first one ends
with what follows the other. -/
theorem afterFirst?_first (gap piece rest : List Char) :
    ∃ front, afterFirst? piece (gap ++ piece ++ rest) = some (front ++ rest) := by
  induction gap with
  | nil =>
    refine ⟨[], ?_⟩
    rw [List.nil_append, List.nil_append]
    cases hs : piece ++ rest with
    | nil =>
      obtain ⟨rfl, rfl⟩ := List.append_eq_nil_iff.mp hs
      rfl
    | cons c s =>
      rw [afterFirst?]
      rw [Pieces.dropLead?_eq_some_iff.mpr hs.symm]
  | cons c gap ih =>
    obtain ⟨front, hfront⟩ := ih
    rw [List.cons_append, List.cons_append]
    rw [afterFirst?]
    cases hlead : Pieces.dropLead? piece (c :: (gap ++ piece ++ rest)) with
    | none => exact ⟨front, hfront⟩
    | some found =>
      -- the piece stands right here: what follows it is at least as long as `rest`
      have hsame := Pieces.dropLead?_eq_some_iff.mp hlead
      have hsplit : c :: gap ++ piece ++ rest = piece ++ found := hsame
      have hlength := congrArg List.length hsplit
      simp only [List.length_append, List.length_cons] at hlength
      have hsuffix : rest <:+ found := by
        refine List.suffix_of_suffix_length_le (List.suffix_append (c :: gap ++ piece) rest)
          ?_ (by omega)
        rw [hsplit]
        exact List.suffix_append piece found
      obtain ⟨front', hfound⟩ := hsuffix
      exact ⟨front', congrArg some hfound.symm⟩

/-! ### Matching -/

/-- By induction on the pieces. Completeness is where the first occurrence is exchanged for the one
that the given placement uses. -/
theorem matchPieces_eq_true_iff {pieces : List (List Char)} (hne : pieces ≠ []) (s : List Char) :
    matchPieces pieces s = true ↔ Fits pieces s := by
  induction pieces generalizing s with
  | nil => exact absurd rfl hne
  | cons piece rest ih =>
    cases rest with
    | nil =>
      rw [matchPieces, List.isSuffixOf_iff_suffix, fits_cons]
      constructor
      · rintro ⟨gap, rfl⟩
        exact ⟨gap, [], by simp, fits_nil.mpr rfl⟩
      · rintro ⟨gap, behind, rfl, hbehind⟩
        obtain rfl := fits_nil.mp hbehind
        exact ⟨gap, by simp⟩
    | cons next rest =>
      rw [matchPieces, fits_cons]
      constructor
      · intro h
        split at h
        · next behind hbehind =>
          obtain ⟨gap, rfl⟩ := afterFirst?_sound hbehind
          exact ⟨gap, behind, rfl, (ih (by simp) behind).mp h⟩
        · cases h
      · rintro ⟨gap, behind, rfl, hfits⟩
        obtain ⟨front, hfirst⟩ := afterFirst?_first gap piece behind
        rw [hfirst]
        exact (ih (by simp) _).mpr (hfits.append_left (by simp) front)
      · simp

/-- With two pieces or more, matching a name is spelling it. -/
theorem matchName_eq_true_iff {pieces : List (List Char)} (h : 2 ≤ pieces.length)
    (name : List Char) : matchName pieces name = true ↔ Spells pieces name := by
  match pieces, h with
  | first :: next :: rest, _ =>
    unfold matchName
    constructor
    · intro hmatch
      dsimp only at hmatch
      split at hmatch
      · next behind hbehind =>
        exact ⟨first, next :: rest, behind, rfl, Pieces.dropLead?_eq_some_iff.mp hbehind,
          (matchPieces_eq_true_iff (by simp) behind).mp hmatch⟩
      · cases hmatch
    · rintro ⟨_, _, behind, hpieces, rfl, hfits⟩
      obtain ⟨rfl, rfl⟩ := List.cons.inj hpieces
      dsimp only
      rw [Pieces.dropLead?_eq_some_iff.mpr rfl]
      exact (matchPieces_eq_true_iff (by simp) behind).mpr hfits

end Understudy.Wildcard
