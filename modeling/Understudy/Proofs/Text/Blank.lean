import Understudy.Text.Blank

/-!
What trimming a text means: the text is blanks, the trimmed text and blanks again, and the trimmed
text neither begins nor ends with a blank. There is one such text, and `Blank.trim` is it.
-/

namespace Understudy.Blank

/-- `t` is `s` without the blanks around it. -/
structure Trimmed (s t : List Char) : Prop where
  surrounded : ∃ before after, s = before ++ t ++ after ∧
    (∀ c ∈ before, isBlank c = true) ∧ ∀ c ∈ after, isBlank c = true
  begins : ∀ c ∈ t.head?, isBlank c = false
  ends : ∀ c ∈ t.getLast?, isBlank c = false

/-- What is left when the blanks in front are dropped does not begin with one. -/
theorem isBlank_head?_dropWhile (s : List Char) :
    ∀ c ∈ (s.dropWhile isBlank).head?, isBlank c = false := by
  intro c hc
  have h := List.head?_dropWhile_not isBlank s
  rw [hc] at h
  simpa using h

theorem trimmed_trim (s : List Char) : Trimmed s (trim s) := by
  have hback := List.takeWhile_append_dropWhile (p := isBlank) (l := (s.dropWhile isBlank).reverse)
  have hsplit : s.dropWhile isBlank =
      trim s ++ ((s.dropWhile isBlank).reverse.takeWhile isBlank).reverse := by
    rw [trim, ← List.reverse_append, hback, List.reverse_reverse]
  refine ⟨⟨s.takeWhile isBlank, ((s.dropWhile isBlank).reverse.takeWhile isBlank).reverse,
    ?_, ?_, ?_⟩, ?_, ?_⟩
  · rw [List.append_assoc, ← hsplit, List.takeWhile_append_dropWhile]
  · exact List.all_eq_true.mp List.all_takeWhile
  · exact fun c hc => List.all_eq_true.mp List.all_takeWhile c (List.mem_reverse.mp hc)
  · intro c hc
    refine isBlank_head?_dropWhile s c ?_
    rw [hsplit, List.head?_append, hc]
    rfl
  · intro c hc
    rw [trim, List.getLast?_reverse] at hc
    exact isBlank_head?_dropWhile _ c hc

/-- Blanks before a text that does not begin with one are dropped, and no more. -/
theorem dropWhile_blank_append {before t : List Char} (hb : ∀ c ∈ before, isBlank c = true)
    (ht : ∀ c ∈ t.head?, isBlank c = false) : (before ++ t).dropWhile isBlank = t := by
  rw [List.dropWhile_append_of_pos hb]
  cases t with
  | nil => rfl
  | cons c t => rw [List.dropWhile_cons_of_neg (by rw [ht c rfl]; decide)]

theorem trim_eq_of_trimmed {s t : List Char} (h : Trimmed s t) : trim s = t := by
  obtain ⟨⟨before, after, rfl, hbefore, hafter⟩, hbegins, hends⟩ := h
  cases t with
  | nil =>
    have hall : ∀ c ∈ before ++ [] ++ after, isBlank c = true := by
      intro c hc
      rw [List.append_nil] at hc
      exact (List.mem_append.mp hc).elim (hbefore c) (hafter c)
    have hnil := dropWhile_blank_append (t := []) hall (fun _ h => nomatch h)
    rw [List.append_nil] at hnil
    rw [trim, hnil]
    rfl
  | cons c t =>
    have hfront : (before ++ (c :: t) ++ after).dropWhile isBlank = c :: t ++ after := by
      rw [List.append_assoc]
      refine dropWhile_blank_append hbefore fun d hd => hbegins d ?_
      rwa [List.cons_append, List.head?_cons] at hd
    have hback : (after.reverse ++ (c :: t).reverse).dropWhile isBlank = (c :: t).reverse := by
      refine dropWhile_blank_append (fun d hd => hafter d (List.mem_reverse.mp hd)) fun d hd => ?_
      rw [List.head?_reverse] at hd
      exact hends d hd
    rw [trim, hfront, List.reverse_append, hback, List.reverse_reverse]

end Understudy.Blank
