import Understudy.ClassPath.Basic
import Understudy.Proofs.Files.Lookup

/-!
A directory on a class path that has no file for a class. It is passed over where the file is
missing, and where the class could not lie in a directory at all. Otherwise something stands in the
way of the look-up, and that ends the search for the class, even if an entry further back holds it.
Main statements: `findBytes_insert_directory` and `contains_insert_directory`.
-/

namespace Understudy

variable {tree : FileTree} {name root : String} {id : EntryId} {fault : FileFault}
  {before behind : List Entry}

/-- A directory denies that it has a class: the name is not one of a class in a directory, or the
file is missing. -/
def FileTree.Denies (tree : FileTree) (root name : String) : Prop :=
  (Holding.isFileable name && Path.isDownward (ClassName.resourcePath name)) = false ∨
    tree.Missing (Path.join root (ClassName.resourcePath name))

theorem Entry.classBytes_directory_of_denies (h : tree.Denies root name) :
    Entry.classBytes tree ⟨id, .directory root⟩ name = .ok none := by
  rw [classBytes]
  rcases h with hunfit | hmissing
  · simp only [hunfit, Bool.false_eq_true, if_false]
  · have hread : tree.read (Path.join root (ClassName.resourcePath name)) = .error .notFound := by
      rw [FileTree.read, FileTree.resolve_eq_notFound_iff.mpr hmissing]
    simp only [hread, ite_self]

theorem FileTree.ne_notFound_of_not_denies
    (hnothing : tree.resolve (Path.join root (ClassName.resourcePath name)) = .error fault)
    (h : ¬ tree.Denies root name) : fault ≠ .notFound := by
  rintro rfl
  exact h (.inr (resolve_eq_notFound_iff.mp hnothing))

/-- What is no directory at all denies no class that could lie in one. -/
theorem FileTree.not_denies_of_outside {place : Place} (hroot : tree.resolve root = .ok place)
    (houtside : tree.node? place ≠ some .directory) (hend : root.toList.getLast? ≠ some '/')
    (hfit : (Holding.isFileable name && Path.isDownward (ClassName.resourcePath name)) = true) :
    ¬ tree.Denies root name := by
  have hdown := Path.downward_of_isDownward (Bool.and_eq_true_iff.mp hfit).2
  obtain ⟨fault, hfault, hresolve⟩ :=
    exists_fault_of_join hroot houtside hend hdown.relative hdown.names_ne_nil
  rintro (hunfit | hmissing)
  · rw [hfit] at hunfit
    cases hunfit
  · rw [resolve_eq_notFound_iff.mpr hmissing] at hresolve
    exact hfault (Except.error.inj hresolve).symm

/-- Where nothing is found and the directory does not deny, what stands in the way is reported. -/
theorem Entry.classBytes_directory_of_not_denies
    (hnothing : tree.resolve (Path.join root (ClassName.resourcePath name)) = .error fault)
    (h : ¬ tree.Denies root name) :
    Entry.classBytes tree ⟨id, .directory root⟩ name = .error (.file fault) := by
  have hfault := FileTree.ne_notFound_of_not_denies hnothing h
  rw [FileTree.Denies, not_or, Bool.not_eq_false] at h
  have hread : tree.read (Path.join root (ClassName.resourcePath name)) = .error fault := by
    rw [FileTree.read, hnothing]
  simp only [classBytes, h.1, if_true, hread]

namespace ClassPath

/-- The entries further back are asked when those in front all deny. -/
theorem findBytes_append (tree : FileTree) (name : String) (before behind : List Entry) :
    findBytes tree name (before ++ behind) =
      match findBytes tree name before with
      | .ok none => findBytes tree name behind
      | answer => answer := by
  induction before with
  | nil => rfl
  | cons entry rest ih =>
    rw [List.cons_append, findBytes, findBytes, ih]
    split
    · rfl
    · next hanswer =>
      split
      · next heq => exact absurd heq hanswer
      · rfl

/-- A directory further back, or one that denies, makes no difference. -/
theorem findBytes_insert_directory
    (h : tree.Denies root name ∨ findBytes tree name before ≠ .ok none) :
    findBytes tree name (before ++ ⟨id, .directory root⟩ :: behind) =
      findBytes tree name (before ++ behind) := by
  rw [findBytes_append, findBytes_append]
  rcases h with hdenies | hanswered
  · rw [findBytes, Entry.classBytes_directory_of_denies hdenies]
  · split
    · next heq => exact absurd heq hanswered
    · rfl

/-- What is found depends on the entries only through the bytes. -/
theorem find_congr {entries other : List Entry}
    (h : findBytes tree name entries = findBytes tree name other) :
    find tree ⟨entries⟩ name = find tree ⟨other⟩ name := by
  rw [find, find, h]

/-- A directory whose file cannot be looked up, and that is asked, ends the search. -/
theorem find_insert_directory_of_not_denies
    (hnothing : tree.resolve (Path.join root (ClassName.resourcePath name)) = .error fault)
    (hdenies : ¬ tree.Denies root name) (hasked : findBytes tree name before = .ok none) :
    find tree ⟨before ++ ⟨id, .directory root⟩ :: behind⟩ name = .error (.file fault) := by
  have hbytes : findBytes tree name (before ++ ⟨id, .directory root⟩ :: behind) =
      .error (.file fault) := by
    rw [findBytes_append, hasked, findBytes,
      Entry.classBytes_directory_of_not_denies hnothing hdenies]
  rw [find, hbytes]

/-- Whether some entry holds a class is not affected by a directory that does not. -/
theorem contains_insert_directory
    (hnothing : tree.resolve (Path.join root (ClassName.resourcePath name)) = .error fault) :
    contains tree ⟨before ++ ⟨id, .directory root⟩ :: behind⟩ name =
      contains tree ⟨before ++ behind⟩ name := by
  by_cases hdenies : tree.Denies root name
  · simp only [contains, List.any_append, List.any_cons,
      Entry.classBytes_directory_of_denies hdenies, Bool.false_or]
  · simp only [contains, List.any_append, List.any_cons,
      Entry.classBytes_directory_of_not_denies hnothing hdenies, Bool.false_or]

end ClassPath

end Understudy
