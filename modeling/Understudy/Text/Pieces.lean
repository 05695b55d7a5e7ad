/-!
Texts cut at every occurrence of one character. A text with `n` occurrences has `n + 1` pieces, any
of which may be empty, and putting the character back between them gives the text again.
-/

namespace Understudy.Pieces

/-- Puts a character in front of the first piece. -/
def push (c : Char) : List (List Char) → List (List Char)
  | [] => [[c]]
  | piece :: rest => (c :: piece) :: rest

/-- The pieces between the occurrences of `mark`. -/
def cut (mark : Char) (s : List Char) : List (List Char) :=
  s.foldr (fun c pieces => if c = mark then [] :: pieces else push c pieces) [[]]

/-- The pieces of a text as texts. -/
def ofString (mark : Char) (s : String) : List String :=
  (cut mark s.toList).map String.ofList

/-- What follows `lead` in a text that begins with it. -/
def dropLead? : List Char → List Char → Option (List Char)
  | [], s => some s
  | _ :: _, [] => none
  | a :: lead, c :: s => if a = c then dropLead? lead s else none

theorem dropLead?_eq_some_iff {lead s rest : List Char} :
    dropLead? lead s = some rest ↔ s = lead ++ rest := by
  induction lead generalizing s with
  | nil => simp [dropLead?, eq_comm]
  | cons a lead ih =>
    cases s with
    | nil => simp [dropLead?]
    | cons c s =>
      by_cases h : a = c
      · simp [dropLead?, h, ih]
      · simp [dropLead?, h, Ne.symm h]

/-- There is always a first piece. -/
theorem cut_ne_nil (mark : Char) (s : List Char) : cut mark s ≠ [] := by
  cases s with
  | nil => simp [cut]
  | cons c s =>
    simp only [cut, List.foldr_cons]
    split
    · simp
    · unfold push
      split <;> simp

end Understudy.Pieces
