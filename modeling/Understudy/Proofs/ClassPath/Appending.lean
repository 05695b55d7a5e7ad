import Understudy.Proofs.ClassPath.Absence
import Understudy.Proofs.ClassPath.Faults

/-!
Class paths that are longer than others. What is looked up along a class path is told by what its
front and its back tell of the same, wherever it is divided, and each of the four look-ups puts the
two together in its own way. What entries hold matters only through their answers. Main statements:
`continues_append`, `coherent` and `find_congr_answers`.
-/

namespace Understudy

namespace ClassPath

/-- What is looked up along a class path, from what is looked up along its front and its back. -/
structure Continues (tree : FileTree) (front back whole : ClassPath) : Prop where
  find : ∀ name, whole.find tree name =
    match front.find tree name with
    | .ok none => back.find tree name
    | answer => answer
  contains : ∀ name,
    whole.contains tree name = (front.contains tree name || back.contains tree name)
  resource? : ∀ path,
    whole.resource? tree path = (front.resource? tree path).or (back.resource? tree path)
  resources : ∀ path,
    whole.resources tree path = front.resources tree path ++ back.resources tree path

/-- What is found under a name agrees with whether a class is there. Only a file that cannot be read
says nothing of that. -/
structure Coherent (tree : FileTree) (cp : ClassPath) (name : String) : Prop where
  found : ∀ file, cp.find tree name = .ok (some file) → cp.contains tree name = true
  unparsed : ∀ e, cp.find tree name = .error e → (∀ fault, e ≠ .file fault) →
    cp.contains tree name = true
  missing : cp.find tree name = .ok none →
    cp.contains tree name = false ∧ cp.get tree name = .error (.classNotFound name)

variable {tree : FileTree} {cp : ClassPath} {name : String}

/-! ### What the bytes come to -/

theorem find_of_error {e : Error} (h : findBytes tree name cp.entries = .error e) :
    cp.find tree name = .error e := by
  rw [find, h]

theorem find_of_none (h : findBytes tree name cp.entries = .ok none) :
    cp.find tree name = .ok none := by
  rw [find, h]

theorem find_of_some {bytes : Bytes} (h : findBytes tree name cp.entries = .ok (some bytes)) :
    cp.find tree name = (ClassFile.parse bytes).map some := by
  rw [find, h]

/-- Bytes are a class or a failure, so nothing is found only where there are none. -/
theorem find_eq_none_iff :
    cp.find tree name = .ok none ↔ findBytes tree name cp.entries = .ok none := by
  refine ⟨fun h => ?_, find_of_none⟩
  rcases hbytes : findBytes tree name cp.entries with e | _ | bytes
  · cases (find_of_error hbytes).symm.trans h
  · rfl
  · rw [find_of_some hbytes] at h
    cases hparse : ClassFile.parse bytes with
    | error e =>
      rw [hparse] at h
      cases h
    | ok file =>
      rw [hparse] at h
      cases h

/-! ### A front and a back -/

theorem find_append (tree : FileTree) (name : String) (front back : List Entry) :
    find tree ⟨front ++ back⟩ name =
      match find tree ⟨front⟩ name with
      | .ok none => find tree ⟨back⟩ name
      | answer => answer := by
  have happend := findBytes_append tree name front back
  rcases hfront : findBytes tree name front with e | _ | bytes
  · rw [hfront] at happend
    rw [find_of_error happend, find_of_error hfront]
  · rw [hfront] at happend
    rw [find_of_none hfront]
    exact find_congr happend
  · -- the bytes end the search, whether or not they are those of a class
    rw [hfront] at happend
    rw [find_of_some hfront]
    split
    · next hnone =>
      rw [← find_of_some hfront, find_eq_none_iff, hfront] at hnone
      cases hnone
    · exact find_of_some happend

theorem continues_append (tree : FileTree) (front back : List Entry) :
    Continues tree ⟨front⟩ ⟨back⟩ ⟨front ++ back⟩ where
  find name := find_append tree name front back
  contains _ := List.any_append
  resource? _ := List.findSome?_append
  resources _ := List.filterMap_append

/-! ### Whether a class is there -/

/-- A class is there if some entry answers with bytes. -/
theorem contains_iff : cp.contains tree name = true ↔
    ∃ bytes, .ok (some bytes) ∈ cp.entries.map (·.classBytes tree name) := by
  rw [contains, List.any_eq_true]
  constructor
  · rintro ⟨entry, hentry, hthere⟩
    split at hthere
    · next bytes hanswer => exact ⟨bytes, List.mem_map.mpr ⟨entry, hentry, hanswer⟩⟩
    · cases hthere
  · rintro ⟨bytes, hmem⟩
    obtain ⟨entry, hentry, hanswer⟩ := List.mem_map.mp hmem
    exact ⟨entry, hentry, by rw [hanswer]⟩

/-- The answer that ends the search is the answer of an entry. -/
theorem mem_answers_of_findBytes {entries : List Entry} {answer : Except Error (Option Bytes)}
    (h : findBytes tree name entries = answer) (hends : answer ≠ .ok none) :
    answer ∈ entries.map (·.classBytes tree name) := by
  induction entries with
  | nil => exact absurd h.symm hends
  | cons entry rest ih =>
    rw [findBytes] at h
    split at h
    · exact List.mem_cons_of_mem _ (ih h)
    · rw [← h]
      exact List.mem_cons_self

/-- The search ends nowhere only if all entries deny. -/
theorem eq_of_mem_answers {entries : List Entry} {answer : Except Error (Option Bytes)}
    (h : findBytes tree name entries = .ok none)
    (hmem : answer ∈ entries.map (·.classBytes tree name)) : answer = .ok none := by
  induction entries with
  | nil => cases hmem
  | cons entry rest ih =>
    rw [findBytes] at h
    split at h
    · next hdenied =>
      rcases List.mem_cons.mp hmem with rfl | hlater
      · exact hdenied
      · exact ih h hlater
    · next hanswer => exact absurd h hanswer

theorem coherent (tree : FileTree) (cp : ClassPath) (name : String) : Coherent tree cp name := by
  rcases hbytes : findBytes tree name cp.entries with e | _ | bytes
  · have hmem := mem_answers_of_findBytes hbytes (by simp)
    obtain ⟨entry, -, hanswer⟩ := List.mem_map.mp hmem
    obtain ⟨fault, rfl⟩ := Entry.exists_fault_of_classBytes hanswer
    have hfind := find_of_error hbytes
    refine ⟨fun file h => ?_, fun e h hother => ?_, fun h => ?_⟩
    · cases hfind.symm.trans h
    · exact absurd (Except.error.inj (h.symm.trans hfind)) (hother fault)
    · cases hfind.symm.trans h
  · have hfind := find_of_none hbytes
    refine ⟨fun file h => ?_, fun e h _ => ?_, fun h => ⟨?_, ?_⟩⟩
    · cases hfind.symm.trans h
    · cases hfind.symm.trans h
    · rw [← Bool.not_eq_true, contains_iff]
      rintro ⟨bytes, hmem⟩
      cases eq_of_mem_answers hbytes hmem
    · rw [get, hfind]
  · have hthere := contains_iff.mpr ⟨bytes, mem_answers_of_findBytes hbytes (by simp)⟩
    refine ⟨fun _ _ => hthere, fun _ _ _ => hthere, fun h => ?_⟩
    cases hbytes.symm.trans (find_eq_none_iff.mp h)

/-! ### Entries that answer alike -/

variable {other : FileTree} {entries alike : List Entry}

theorem findBytes_congr_answers
    (h : entries.map (·.classBytes tree name) = alike.map (·.classBytes other name)) :
    findBytes tree name entries = findBytes other name alike := by
  induction entries generalizing alike with
  | nil =>
    obtain rfl := List.map_eq_nil_iff.mp h.symm
    rfl
  | cons entry rest ih =>
    obtain ⟨twin, more, rfl, hfirst, hrest⟩ := List.map_eq_cons_iff.mp h.symm
    rw [findBytes, findBytes, hfirst, ih hrest.symm]

theorem find_congr_answers
    (h : entries.map (·.classBytes tree name) = alike.map (·.classBytes other name)) :
    find tree ⟨entries⟩ name = find other ⟨alike⟩ name := by
  rw [find, find, findBytes_congr_answers h]

theorem contains_congr_answers
    (h : entries.map (·.classBytes tree name) = alike.map (·.classBytes other name)) :
    contains tree ⟨entries⟩ name = contains other ⟨alike⟩ name := by
  rw [Bool.eq_iff_iff, contains_iff, contains_iff, h]

variable {path : String}

theorem resource?_congr_answers
    (h : entries.map (·.resource? tree path) = alike.map (·.resource? other path)) :
    resource? tree ⟨entries⟩ path = resource? other ⟨alike⟩ path := by
  have hfirst := congrArg (List.findSome? id) h
  simp only [List.findSome?_map] at hfirst
  exact hfirst

theorem resources_congr_answers
    (h : entries.map (·.resource? tree path) = alike.map (·.resource? other path)) :
    resources tree ⟨entries⟩ path = resources other ⟨alike⟩ path := by
  have hall := congrArg (List.filterMap id) h
  simp only [List.filterMap_map] at hall
  exact hall

end ClassPath

end Understudy
