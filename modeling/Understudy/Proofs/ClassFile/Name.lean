import Mathlib.Data.List.Basic
import Understudy.ClassFile.Name

/-!
Class names with points and with slashes. Class files write points and slashes alike, and a name
without slashes is the one that is read from all names that they write like it.
-/

namespace Understudy.ClassName

variable {old new : Char} {name other text : String}

theorem replaceChar_of_notMem (h : old ∉ text.toList) : replaceChar old new text = text := by
  have hmap : text.toList.map (fun c => if c = old then new else c) = text.toList.map id := by
    refine List.map_congr_left fun c hc => if_neg ?_
    rintro rfl
    exact h hc
  rw [replaceChar, hmap, List.map_id, String.ofList_toList]

/-- The character that is replaced is gone. -/
theorem notMem_replaceChar (h : old ≠ new) (text : String) :
    old ∉ (replaceChar old new text).toList := by
  rw [replaceChar, String.toList_ofList]
  intro hold
  obtain ⟨c, -, hc⟩ := List.mem_map.mp hold
  split at hc
  · exact h hc.symm
  · next hne => exact hne hc

/-- Replacing back turns both characters into the first one, as replacing the new one does. -/
theorem replaceChar_replaceChar (old new : Char) (text : String) :
    replaceChar new old (replaceChar old new text) = replaceChar new old text := by
  simp only [replaceChar, String.toList_ofList, List.map_map]
  refine congrArg String.ofList (List.map_congr_left fun c _ => ?_)
  by_cases h : c = old
  · simp [h]
  · simp [h]

/-- Points and slashes alike become slashes in class files, and points when they are read. -/
theorem binary_internal (name : String) : binary (internal name) = binary name :=
  replaceChar_replaceChar '.' '/' name

theorem internal_binary (name : String) : internal (binary name) = internal name :=
  replaceChar_replaceChar '/' '.' name

theorem binary_of_noSlash (h : '/' ∉ name.toList) : binary name = name :=
  replaceChar_of_notMem h

/-- A name without slashes is what is read from all names that class files write alike. -/
theorem binary_eq_iff (h : '/' ∉ name.toList) :
    binary other = name ↔ internal other = internal name := by
  constructor
  · rintro rfl
    exact (internal_binary other).symm
  · intro heq
    rw [← binary_internal, heq, binary_internal, binary_of_noSlash h]

theorem internal_eq_self_iff : internal name = name ↔ '.' ∉ name.toList := by
  refine ⟨fun h hpoint => ?_, replaceChar_of_notMem⟩
  rw [← h] at hpoint
  exact notMem_replaceChar (by decide) name hpoint

end Understudy.ClassName
