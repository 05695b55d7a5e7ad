import Understudy.Text.Pieces

/-!
What cutting a text at a mark means: the pieces hold no mark, and with the mark between them they
are the text. There is one such list of pieces, and `Pieces.cut` yields it.
-/

namespace Understudy.Pieces

variable {mark : Char}

/-- `pieces` are what lies between the marks in `s`. -/
structure IsCut (mark : Char) (s : List Char) (pieces : List (List Char)) : Prop where
  nonempty : pieces ≠ []
  joined : [mark].intercalate pieces = s
  unmarked : ∀ piece ∈ pieces, mark ∉ piece

theorem cut_cons_self (s : List Char) : cut mark (mark :: s) = [] :: cut mark s := by
  simp [cut]

theorem cut_cons_of_ne {c : Char} (h : c ≠ mark) (s : List Char) :
    cut mark (c :: s) = push c (cut mark s) := by
  simp [cut, h]

theorem push_append (c : Char) {pieces : List (List Char)} (h : pieces ≠ [])
    (more : List (List Char)) : push c (pieces ++ more) = push c pieces ++ more := by
  cases pieces with
  | nil => exact absurd rfl h
  | cons piece rest => rfl

/-- At a mark a text is cut into the pieces of both sides. -/
theorem cut_append (s t : List Char) : cut mark (s ++ mark :: t) = cut mark s ++ cut mark t := by
  induction s with
  | nil => exact cut_cons_self t
  | cons c s ih =>
    by_cases h : c = mark
    · subst h
      rw [List.cons_append, cut_cons_self, cut_cons_self, ih, List.cons_append]
    · rw [List.cons_append, cut_cons_of_ne h, cut_cons_of_ne h, ih,
        push_append c (cut_ne_nil mark s)]

/-- A text without marks is its own only piece. -/
theorem cut_of_notMem {piece : List Char} (h : mark ∉ piece) : cut mark piece = [piece] := by
  induction piece with
  | nil => rfl
  | cons c piece ih =>
    obtain ⟨hc, hpiece⟩ := List.ne_and_not_mem_of_not_mem_cons h
    rw [cut_cons_of_ne (Ne.symm hc), ih hpiece]
    rfl

/-- A text without marks in front of a mark is the first piece. -/
theorem cut_append_cons {piece : List Char} (h : mark ∉ piece) (s : List Char) :
    cut mark (piece ++ mark :: s) = piece :: cut mark s := by
  rw [cut_append, cut_of_notMem h, List.singleton_append]

theorem isCut_cut (mark : Char) (s : List Char) : IsCut mark s (cut mark s) := by
  induction s with
  | nil => exact ⟨cut_ne_nil mark [], rfl, by simp [cut]⟩
  | cons c s ih =>
    obtain ⟨hne, hjoined, hunmarked⟩ := ih
    refine ⟨cut_ne_nil mark _, ?_, ?_⟩
    · by_cases h : c = mark
      · subst h
        rw [cut_cons_self]
        obtain ⟨piece, rest, hcut⟩ := List.exists_cons_of_ne_nil hne
        rw [hcut] at hjoined ⊢
        rw [List.intercalate_cons_cons, hjoined]
        rfl
      · rw [cut_cons_of_ne h]
        cases hcut : cut mark s with
        | nil => exact absurd hcut hne
        | cons piece rest =>
          rw [hcut] at hjoined
          rw [push, ← hjoined]
          cases rest with
          | nil => simp
          | cons next rest => simp [List.intercalate_cons_cons]
    · by_cases h : c = mark
      · subst h
        rw [cut_cons_self]
        rintro piece (_ | ⟨_, hpiece⟩)
        · exact List.not_mem_nil
        · exact hunmarked piece hpiece
      · rw [cut_cons_of_ne h]
        cases hcut : cut mark s with
        | nil => exact absurd hcut hne
        | cons first rest =>
          rw [hcut] at hunmarked
          rintro piece (_ | ⟨_, hpiece⟩)
          · exact List.not_mem_cons_of_ne_of_not_mem (Ne.symm h)
              (hunmarked first List.mem_cons_self)
          · exact hunmarked piece (List.mem_cons_of_mem _ hpiece)

theorem IsCut.eq_cut {s : List Char} {pieces : List (List Char)} (h : IsCut mark s pieces) :
    pieces = cut mark s := by
  obtain ⟨hne, rfl, hunmarked⟩ := h
  induction pieces with
  | nil => exact absurd rfl hne
  | cons piece rest ih =>
    have hpiece := hunmarked piece List.mem_cons_self
    cases rest with
    | nil => rw [List.intercalate_singleton, cut_of_notMem hpiece]
    | cons next rest =>
      have hrest := ih (by simp) fun p hp => hunmarked p (List.mem_cons_of_mem _ hp)
      rw [List.intercalate_cons_cons, List.append_assoc, List.singleton_append,
        cut_append_cons hpiece, ← hrest]

/-- A text that holds the mark has more than one piece. -/
theorem IsCut.two_le_length {s : List Char} {pieces : List (List Char)} (h : IsCut mark s pieces)
    (hmark : mark ∈ s) : 2 ≤ pieces.length := by
  obtain ⟨hne, rfl, hunmarked⟩ := h
  match pieces, hne with
  | [piece], _ =>
    rw [List.intercalate_singleton] at hmark
    exact absurd hmark (hunmarked piece List.mem_cons_self)
  | _ :: _ :: _, _ => simp

theorem mem_intercalate {sep piece : List Char} {c : Char} (hc : c ∈ piece) :
    ∀ {pieces : List (List Char)}, piece ∈ pieces → c ∈ sep.intercalate pieces
  | [first], h => by
    obtain rfl := List.mem_singleton.mp h
    rwa [List.intercalate_singleton]
  | first :: next :: rest, h => by
    rw [List.intercalate_cons_cons]
    rcases List.mem_cons.mp h with rfl | hlater
    · exact List.mem_append_left _ (List.mem_append_left _ hc)
    · exact List.mem_append_right _ (mem_intercalate hc hlater)

/-- Where pieces are left out, some of the text is. -/
theorem intercalate_sublist (sep : List Char) {fewer pieces : List (List Char)}
    (h : fewer.Sublist pieces) : (sep.intercalate fewer).Sublist (sep.intercalate pieces) := by
  induction h with
  | slnil => exact .refl _
  | @cons fewer pieces piece h ih =>
    cases pieces with
    | nil =>
      rw [List.sublist_nil.mp h]
      exact List.nil_sublist _
    | cons next rest =>
      rw [List.intercalate_cons_cons]
      exact ih.trans (List.sublist_append_right _ _)
  | @cons_cons fewer pieces piece h ih =>
    rcases fewer with _ | ⟨first, fewer⟩
    · cases pieces with
      | nil => exact .refl _
      | cons next rest =>
        rw [List.intercalate_singleton, List.intercalate_cons_cons, List.append_assoc]
        exact List.sublist_append_left _ _
    · cases pieces with
      | nil => cases h
      | cons next rest =>
        rw [List.intercalate_cons_cons, List.intercalate_cons_cons]
        exact (List.Sublist.refl _).append ih

/-- What stands in a piece stands in the text. -/
theorem IsCut.mem_of_mem_piece {s : List Char} {pieces : List (List Char)}
    (h : IsCut mark s pieces) {piece : List Char} (hpiece : piece ∈ pieces) {c : Char}
    (hc : c ∈ piece) : c ∈ s := by
  rw [← h.joined]
  exact mem_intercalate hc hpiece

theorem mem_piece_or_eq_of_mem_intercalate {c : Char} : ∀ {pieces : List (List Char)},
    c ∈ [mark].intercalate pieces → (∃ piece ∈ pieces, c ∈ piece) ∨ c = mark
  | [], h => by cases h
  | [first], h => by
    rw [List.intercalate_singleton] at h
    exact .inl ⟨first, List.mem_cons_self, h⟩
  | first :: next :: rest, h => by
    rw [List.intercalate_cons_cons, List.mem_append, List.mem_append, List.mem_singleton] at h
    rcases h with (hfirst | heq) | hlater
    · exact .inl ⟨first, List.mem_cons_self, hfirst⟩
    · exact .inr heq
    · rcases mem_piece_or_eq_of_mem_intercalate hlater with ⟨piece, hpiece, hc⟩ | heq
      · exact .inl ⟨piece, List.mem_cons_of_mem _ hpiece, hc⟩
      · exact .inr heq

/-- What stands in the text is a mark or stands in a piece. -/
theorem IsCut.mem_piece_or_eq {s : List Char} {pieces : List (List Char)} (h : IsCut mark s pieces)
    {c : Char} (hc : c ∈ s) : (∃ piece ∈ pieces, c ∈ piece) ∨ c = mark := by
  rw [← h.joined] at hc
  exact mem_piece_or_eq_of_mem_intercalate hc

end Understudy.Pieces
