import Understudy.Proofs.Selection.Wildcard
import Understudy.Proofs.Text.Blank
import Understudy.Proofs.Text.Pieces

/-!
What a pattern says of a name, put without the way in which it is matched. Take the text of a
pattern without the blanks around it. With stars in it, it matches the names that the pieces between
the stars spell. Without, it matches what begins with it if it ends in a point, and otherwise itself
and what begins with it and a point; then the text with a point behind it, or with a point and a
star, matches the same but itself. The pattern counts as the one for everything exactly if it
matches everything. Main statement: `isMatch_meaning`.
-/

namespace Understudy

namespace Wildcard

theorem eq_nil_of_fits_nil {pieces : List (List Char)} (h : Fits pieces []) :
    ∀ piece ∈ pieces, piece = [] := by
  induction pieces with
  | nil => exact fun _ hmem => nomatch hmem
  | cons first rest ih =>
    obtain ⟨gap, behind, heq, hrest⟩ := fits_cons.mp h
    obtain ⟨hfront, hbehind⟩ := List.append_eq_nil_iff.mp heq.symm
    rw [hbehind] at hrest
    rintro piece (_ | ⟨_, hmem⟩)
    · exact (List.append_eq_nil_iff.mp hfront).2
    · exact ih hrest piece hmem

/-- Only empty pieces spell the empty name. -/
theorem eq_nil_of_spells_nil {pieces : List (List Char)} (h : Spells pieces []) :
    ∀ piece ∈ pieces, piece = [] := by
  obtain ⟨first, rest, behind, rfl, heq, hfits⟩ := h
  obtain ⟨hfirst, hbehind⟩ := List.append_eq_nil_iff.mp heq.symm
  rw [hbehind] at hfits
  rintro piece (_ | ⟨_, hmem⟩)
  · exact hfirst
  · exact eq_nil_of_fits_nil hfits piece hmem

/-- Two or more empty pieces spell every name. -/
theorem spells_of_forall_eq_nil {pieces : List (List Char)} (hlength : 2 ≤ pieces.length)
    (h : ∀ piece ∈ pieces, piece = []) (name : List Char) : Spells pieces name := by
  match pieces, hlength with
  | first :: next :: rest, _ =>
    obtain rfl := h first List.mem_cons_self
    exact ⟨[], next :: rest, name, rfl, rfl, fits_of_forall_eq_nil (by simp)
      (fun piece hp => h piece (List.mem_cons_of_mem _ hp)) name⟩

/-- One piece and a star behind it. -/
theorem spells_pair_nil {piece name : List Char} : Spells [piece, []] name ↔ piece <+: name := by
  constructor
  · rintro ⟨first, rest, behind, hpieces, rfl, -⟩
    obtain ⟨rfl, -⟩ := List.cons.inj hpieces
    exact List.prefix_append _ behind
  · rintro ⟨behind, rfl⟩
    exact ⟨piece, [[]], behind, rfl, rfl, fits_of_forall_eq_nil (by simp) (by simp) behind⟩

end Wildcard

namespace Pattern

/-! ### The shapes -/

/-- A text reads as the pattern for everything when it has stars and nothing else. -/
theorem ofText_eq_any_iff {t : List Char} :
    Shape.ofText t = .any ↔ t ≠ [] ∧ ∀ c ∈ t, c = '*' := by
  rw [Shape.ofText]
  split
  · next h => simpa using h
  · next h =>
    have hnot : ¬(t ≠ [] ∧ ∀ c ∈ t, c = '*') := by simpa using h
    constructor
    · intro hshape
      split at hshape
      · cases hshape
      · split at hshape <;> cases hshape
    · exact fun hall => absurd hall hnot

theorem ofText_of_mem {t : List Char} (h : '*' ∈ t) :
    Shape.ofText t = .any ∨ Shape.ofText t = .wildcard (Pieces.cut '*' t) := by
  rw [Shape.ofText]
  split
  · exact .inl rfl
  · rw [if_pos (by simpa using h)]
    exact .inr rfl

theorem ofText_of_notMem {t : List Char} (h : '*' ∉ t) :
    Shape.ofText t = if t.getLast? = some '.' then .package else .exact := by
  rw [Shape.ofText]
  rw [if_neg, if_neg (by simpa using h)]
  rintro ⟨hne, hall⟩
  obtain ⟨c, rest, rfl⟩ := List.exists_cons_of_ne_nil hne
  rw [List.all_cons, Bool.and_eq_true, beq_iff_eq] at hall
  exact h (hall.1 ▸ List.mem_cons_self)

/-! ### Matching by shape -/

/-- A text with stars matches what its pieces spell. Stars alone have empty pieces only, so the
pattern for everything is no exception. -/
theorem matchChars_of_mem {t : List Char} (h : '*' ∈ t) (name : List Char) :
    matchChars ⟨t, .ofText t⟩ name = true ↔ Wildcard.Spells (Pieces.cut '*' t) name := by
  have hcut := Pieces.isCut_cut '*' t
  have hlength := hcut.two_le_length h
  rcases ofText_of_mem h with hany | hwild
  · obtain ⟨-, hall⟩ := ofText_eq_any_iff.mp hany
    have hempty : ∀ piece ∈ Pieces.cut '*' t, piece = [] := by
      intro piece hpiece
      refine List.eq_nil_iff_forall_not_mem.mpr fun c hc => ?_
      obtain rfl := hall c (hcut.mem_of_mem_piece hpiece hc)
      exact hcut.unmarked piece hpiece hc
    simp only [matchChars, hany, true_iff]
    exact Wildcard.spells_of_forall_eq_nil hlength hempty name
  · simp only [matchChars, hwild]
    exact Wildcard.matchName_eq_true_iff hlength name

theorem matchChars_of_package {t : List Char} (h : '*' ∉ t) (hlast : t.getLast? = some '.')
    (name : List Char) : matchChars ⟨t, .ofText t⟩ name = true ↔ t <+: name := by
  simp only [matchChars, ofText_of_notMem h, if_pos hlast]
  exact List.isPrefixOf_iff_prefix

theorem matchChars_of_exact {t : List Char} (h : '*' ∉ t) (hlast : t.getLast? ≠ some '.')
    (name : List Char) :
    matchChars ⟨t, .ofText t⟩ name = true ↔ name = t ∨ t ++ ['.'] <+: name := by
  simp only [matchChars, ofText_of_notMem h, if_neg hlast, Bool.or_eq_true, beq_iff_eq,
    List.isPrefixOf_iff_prefix]
  rw [eq_comm (a := t)]

/-- Only stars match every name: any other pattern refuses the empty name, or else every name that
begins otherwise than with a point. -/
theorem ofText_eq_any_of_forall {t : List Char}
    (h : ∀ name, matchChars ⟨t, .ofText t⟩ name = true) : Shape.ofText t = .any := by
  by_cases hstar : '*' ∈ t
  · have hempty := Wildcard.eq_nil_of_spells_nil ((matchChars_of_mem hstar []).mp (h []))
    refine ofText_eq_any_iff.mpr ⟨List.ne_nil_of_mem hstar, fun c hc => ?_⟩
    rcases (Pieces.isCut_cut '*' t).mem_piece_or_eq hc with ⟨piece, hpiece, hin⟩ | heq
    · rw [hempty piece hpiece] at hin
      cases hin
    · exact heq
  · by_cases hlast : t.getLast? = some '.'
    · obtain rfl := List.prefix_nil.mp ((matchChars_of_package hstar hlast []).mp (h []))
      cases hlast
    · rcases (matchChars_of_exact hstar hlast []).mp (h []) with rfl | hprefix
      · have hother := (matchChars_of_exact hstar hlast ['a']).mp (h ['a'])
        exact absurd hother (by decide)
      · exact absurd (List.prefix_nil.mp hprefix) (by simp)

/-! ### Texts with a point and a star behind them -/

/-- A text that is trimmed already reads as it stands. -/
theorem ofString_of_trimmed {t : List Char} (hbegins : ∀ c ∈ t.head?, Blank.isBlank c = false)
    (hends : ∀ c ∈ t.getLast?, Blank.isBlank c = false) :
    ofString (String.ofList t) = ⟨t, .ofText t⟩ := by
  have htrim : Blank.trim t = t := by
    refine Blank.trim_eq_of_trimmed ⟨⟨[], [], by simp, ?_, ?_⟩, hbegins, hends⟩
    · exact fun _ h => nomatch h
    · exact fun _ h => nomatch h
  simp only [ofString, String.toList_ofList, htrim]

/-- What begins with no blank still begins with none when a point comes behind it. -/
theorem isBlank_head?_append_point {t : List Char}
    (hbegins : ∀ c ∈ t.head?, Blank.isBlank c = false) (rest : List Char) :
    ∀ c ∈ (t ++ '.' :: rest).head?, Blank.isBlank c = false := by
  intro c hc
  cases t with
  | nil =>
    obtain rfl := Option.some.inj hc
    decide
  | cons a t => exact hbegins c hc

/-- `t.` matches what begins with it. -/
theorem isMatch_pointed {t : List Char} (hstar : '*' ∉ t)
    (hbegins : ∀ c ∈ t.head?, Blank.isBlank c = false) (name : String) :
    (ofString (String.ofList (t ++ ['.']))).isMatch name = true ↔ t ++ ['.'] <+: name.toList := by
  have hlast : (t ++ ['.']).getLast? = some '.' := List.getLast?_concat
  rw [ofString_of_trimmed (isBlank_head?_append_point hbegins []), isMatch]
  · exact matchChars_of_package (by simpa using hstar) hlast name.toList
  · intro c hc
    rw [hlast] at hc
    obtain rfl := Option.some.inj hc
    decide

/-- `t.*` matches the same. -/
theorem isMatch_starred {t : List Char} (hstar : '*' ∉ t)
    (hbegins : ∀ c ∈ t.head?, Blank.isBlank c = false) (name : String) :
    (ofString (String.ofList (t ++ ['.', '*']))).isMatch name = true ↔
      t ++ ['.'] <+: name.toList := by
  have hcut : Pieces.IsCut '*' (t ++ ['.', '*']) [t ++ ['.'], []] :=
    ⟨by simp, by simp, by simpa using hstar⟩
  rw [ofString_of_trimmed (isBlank_head?_append_point hbegins ['*']), isMatch,
    matchChars_of_mem (by simp), ← hcut.eq_cut]
  · exact Wildcard.spells_pair_nil
  · intro c hc
    rw [show t ++ ['.', '*'] = (t ++ ['.']) ++ ['*'] by simp, List.getLast?_concat] at hc
    obtain rfl := Option.some.inj hc
    decide

/-! ### The meaning of a pattern -/

/-- What the pattern of a text matches, for every text and every name; `t` is the text without the
blanks around it. -/
theorem isMatch_meaning (text : String) :
    let t := Blank.trim text.toList
    let p := ofString text
    let pointed := ofString (String.ofList (t ++ ['.']))
    let starred := ofString (String.ofList (t ++ ['.', '*']))
    Blank.Trimmed text.toList t ∧
    ('*' ∈ t → ∃ pieces, Pieces.IsCut '*' t pieces ∧ 2 ≤ pieces.length ∧
      ∀ name : String, p.isMatch name = true ↔ Wildcard.Spells pieces name.toList) ∧
    ('*' ∉ t → t.getLast? = some '.' →
      ∀ name : String, p.isMatch name = true ↔ t <+: name.toList) ∧
    ('*' ∉ t → t.getLast? ≠ some '.' → ∀ name : String,
      (p.isMatch name = true ↔ name.toList = t ∨ t ++ ['.'] <+: name.toList) ∧
      pointed.isMatch name = starred.isMatch name ∧
      (p.isMatch name = true ↔ name.toList = t ∨ starred.isMatch name = true)) ∧
    (p.coversAll = true ↔ ∀ name : String, p.isMatch name = true) := by
  intro t p pointed starred
  have htrim : Blank.Trimmed text.toList t := Blank.trimmed_trim text.toList
  refine ⟨htrim, fun hstar => ?_, fun hstar hlast name => ?_, fun hstar hlast name => ?_, ?_⟩
  · have hcut := Pieces.isCut_cut '*' t
    exact ⟨Pieces.cut '*' t, hcut, hcut.two_le_length hstar,
      fun name => matchChars_of_mem hstar name.toList⟩
  · exact matchChars_of_package hstar hlast name.toList
  · have hexact := matchChars_of_exact hstar hlast name.toList
    have hpointed := isMatch_pointed hstar htrim.begins name
    have hstarred := isMatch_starred hstar htrim.begins name
    refine ⟨hexact, ?_, ?_⟩
    · exact Bool.eq_iff_iff.mpr (hpointed.trans hstarred.symm)
    · rw [hstarred]
      exact hexact
  · rw [coversAll, beq_iff_eq]
    constructor
    · intro hany name
      rw [isMatch, matchChars, hany]
    · intro hall
      refine ofText_eq_any_of_forall fun name => ?_
      have hname := hall (String.ofList name)
      rwa [isMatch, String.toList_ofList] at hname

/-- The meaning of three texts, one of each shape. -/
theorem isMatch_meaning_shapes :
    (∃ pieces, Pieces.IsCut '*' "ab*ba".toList pieces ∧ 2 ≤ pieces.length ∧
      ∀ name : String, (ofString " ab*ba ").isMatch name = true ↔
        Wildcard.Spells pieces name.toList) ∧
    (∀ name : String, (ofString "a.b.").isMatch name = true ↔ "a.b.".toList <+: name.toList) ∧
    ∀ name : String, (ofString "a.b").isMatch name = true ↔
      name.toList = "a.b".toList ∨ "a.b.".toList <+: name.toList := by
  refine ⟨?_, ?_, fun name => ?_⟩
  · exact (isMatch_meaning " ab*ba ").2.1 (by decide)
  · exact (isMatch_meaning "a.b.").2.2.1 (by decide) (by decide)
  · exact ((isMatch_meaning "a.b").2.2.2.1 (by decide) (by decide) name).1

/-- Pieces do not overlap: a name too short for both ends of a pattern is not matched. -/
example : (ofString " ab*ba ").isMatch "aba" = false ∧
    (ofString " ab*ba ").isMatch "abba" = true := by
  decide +kernel

end Pattern

end Understudy
