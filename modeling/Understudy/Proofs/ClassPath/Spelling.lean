import Understudy.ClassPath.Basic
import Understudy.Proofs.ClassFile.Name
import Understudy.Proofs.Files.Path

/-!
A class held as bytes and the same class put into an empty memory entry. Both answer alike for every
class. For resources the one compares a path with the class's resource path, and the other reads a
name off the path. So the other serves the class as well under paths that have points where its
resource path has slashes, and under these only. The slashes in front of a path do not count, and a
resource path that begins with one is served by neither as it stands: that of a name that begins
with a point. Main statement: `held_alike`.
-/

namespace Understudy

variable {name path : String}

/-- The resource path of a name that begins with a point begins with a slash. -/
theorem ClassName.isAbsolute_resourcePath (h : '/' ∉ name.toList) :
    Path.isAbsolute (resourcePath name) = (name.toList.head? == some '.') := by
  rw [Path.isAbsolute, resourcePath, internal, replaceChar, String.toList_append,
    String.toList_ofList]
  cases hchars : name.toList with
  | nil => rfl
  | cons c rest =>
    have hc : c ≠ '/' := fun heq => h (by rw [hchars, heq]; exact List.mem_cons_self)
    by_cases hpoint : c = '.'
    · simp [hpoint]
    · simp [hpoint, hc]

theorem ClassName.dropLeadingSlashes_resourcePath (h : '/' ∉ name.toList) :
    Path.dropLeadingSlashes (resourcePath name) = resourcePath name ↔
      name.toList.head? ≠ some '.' := by
  rw [Path.dropLeadingSlashes_eq_self_iff, isAbsolute_resourcePath h, beq_eq_false_iff_ne]

namespace Holding

/-- The name of a class is read off a path that ends as resource paths of classes do. -/
theorem classNameOf?_eq_some_iff : classNameOf? path = some name ↔
    ∃ front, path = front ++ ".class" ∧ ClassName.binary front = name := by
  rw [classNameOf?]
  split
  · next hsuffix =>
    obtain ⟨front, hfront⟩ := List.isSuffixOf_iff_suffix.mp hsuffix
    have hpath : path = String.ofList front ++ ".class" := by
      rw [← String.toList_inj, String.toList_append, String.toList_ofList, hfront]
    have htake : path.toList.take (path.toList.length - 6) = front := by
      rw [← hfront, List.length_append]
      exact List.take_left' (Nat.add_sub_cancel _ 6).symm
    rw [htake, Option.some.injEq]
    constructor
    · intro hname
      exact ⟨String.ofList front, hpath, hname⟩
    · rintro ⟨other, hother, hname⟩
      rw [hpath, String.append_left_inj] at hother
      rw [hother, hname]
  · next hsuffix =>
    refine ⟨nofun, ?_⟩
    rintro ⟨front, rfl, -⟩
    refine absurd (List.isSuffixOf_iff_suffix.mpr ⟨front.toList, ?_⟩) hsuffix
    rw [String.toList_append]

/-- The path is not the resource path of the class, but names it with points for some of the
slashes. -/
def IsPointed (path name : String) : Prop :=
  ∃ front, path = front ++ ".class" ∧ '.' ∈ front.toList ∧
    ClassName.internal front = ClassName.internal name

/-- The name of a class is read off its resource path, and off those that have points in it. -/
theorem classNameOf?_eq_some_iff_of_noSlash (h : '/' ∉ name.toList) :
    classNameOf? path = some name ↔ path = ClassName.resourcePath name ∨ IsPointed path name := by
  rw [classNameOf?_eq_some_iff, ClassName.resourcePath]
  simp only [ClassName.binary_eq_iff h]
  constructor
  · rintro ⟨front, rfl, hfront⟩
    by_cases hpoint : '.' ∈ front.toList
    · exact .inr ⟨front, rfl, hpoint, hfront⟩
    · rw [← hfront, ClassName.internal_eq_self_iff.mpr hpoint]
      exact .inl rfl
  · rintro (rfl | ⟨front, rfl, -, hfront⟩)
    · refine ⟨ClassName.internal name, rfl, ?_⟩
      rw [ClassName.internal_eq_self_iff]
      exact ClassName.notMem_replaceChar (by decide) name
    · exact ⟨front, rfl, hfront⟩

/-- There is no point in a resource path but the last one. -/
theorem not_isPointed_resourcePath (name other : String) :
    ¬ IsPointed (ClassName.resourcePath name) other := by
  rintro ⟨front, hfront, hpoint, -⟩
  rw [ClassName.resourcePath, String.append_left_inj] at hfront
  rw [← hfront] at hpoint
  exact ClassName.notMem_replaceChar (by decide) name hpoint

end Holding

namespace Entry

/-- A class held as bytes is served under its resource path as it stands. -/
theorem resource?_single {name : String} {bytes : Bytes} (tree : FileTree) (entry : EntryId)
    (hslash : '/' ∉ name.toList) (hpoint : name.toList.head? ≠ some '.') :
    resource? tree ⟨entry, .single name bytes⟩ (ClassName.resourcePath name) =
      some (.memory entry ("bytes:" ++ name) (ClassName.resourcePath name) bytes) := by
  rw [resource?, (ClassName.dropLeadingSlashes_resourcePath hslash).mpr hpoint]
  exact if_pos rfl

/-- What a query for a resource comes to: the path that it is found under, and its bytes. -/
def served? (tree : FileTree) (entry : Entry) (path : String) :
    Option (String × Except Error Bytes) :=
  (entry.resource? tree path).map fun location => (location.path, location.read tree)

theorem served?_single (tree : FileTree) (i : EntryId) (name : String) (bytes : Bytes)
    (path : String) : served? tree ⟨i, .single name bytes⟩ path =
      if Path.dropLeadingSlashes path = ClassName.resourcePath name then
        some (Path.dropLeadingSlashes path, .ok bytes)
      else none := by
  rw [served?, resource?]
  dsimp only
  split
  · rfl
  · rfl

/-- A memory entry with one class reads the name of this class off the path, or serves nothing. -/
theorem served?_insertClass (tree : FileTree) (j : EntryId) (label name : String) (bytes : Bytes)
    (path : String) :
    served? tree ⟨j, (Holding.emptyMemory label).insertClass name bytes⟩ path =
      if Holding.classNameOf? (Path.dropLeadingSlashes path) = some name then
        some (Path.dropLeadingSlashes path, .ok bytes)
      else none := by
  have hbytes : servedBytes (Keyed.insert [] name bytes) [] (Path.dropLeadingSlashes path) =
      if Holding.classNameOf? (Path.dropLeadingSlashes path) = some name then some bytes
      else none := by
    rw [servedBytes, Keyed.find?_nil]
    dsimp only
    cases Holding.classNameOf? (Path.dropLeadingSlashes path) with
    | none => rfl
    | some read =>
      rw [Option.bind_some, Keyed.find?_insert, Keyed.find?_nil]
      simp only [Option.some.injEq, eq_comm]
  rw [served?, resource?]
  simp only [Holding.emptyMemory, Holding.insertClass, hbytes, Option.map_map]
  split
  · rfl
  · rfl

/-- What a class held as bytes and a memory entry with only this class answer, where they answer
alike and where they do not. -/
theorem held_alike (tree : FileTree) (i j : EntryId) (label : String) {name : String}
    (bytes : Bytes) (hname : '/' ∉ name.toList) :
    let single : Entry := ⟨i, .single name bytes⟩
    let memory : Entry := ⟨j, (Holding.emptyMemory label).insertClass name bytes⟩
    (∀ other, single.classBytes tree other = memory.classBytes tree other) ∧
    (∀ path, ¬ Holding.IsPointed (Path.dropLeadingSlashes path) name →
      single.served? tree path = memory.served? tree path) ∧
    (∀ path, Holding.IsPointed (Path.dropLeadingSlashes path) name →
      single.served? tree path = none ∧
        memory.served? tree path = some (Path.dropLeadingSlashes path, .ok bytes)) ∧
    (∀ path, (single.served? tree path).isSome ↔
      Path.dropLeadingSlashes path = ClassName.resourcePath name) ∧
    ∀ entry ∈ [single, memory],
      entry.served? tree (ClassName.resourcePath name) =
          some (ClassName.resourcePath name, .ok bytes) ↔ name.toList.head? ≠ some '.' := by
  intro single memory
  have hread : ∀ path, Holding.classNameOf? (Path.dropLeadingSlashes path) = some name ↔
      Path.dropLeadingSlashes path = ClassName.resourcePath name ∨
        Holding.IsPointed (Path.dropLeadingSlashes path) name :=
    fun _ => Holding.classNameOf?_eq_some_iff_of_noSlash hname
  refine ⟨fun other => ?_, fun path hpoint => ?_, fun path hpoint => ⟨?_, ?_⟩, fun path => ?_, ?_⟩
  · show Except.ok _ = Except.ok _
    rw [Keyed.find?_insert, Keyed.find?_nil]
    simp only [eq_comm]
  · rw [served?_single, served?_insertClass]
    simp only [hread, hpoint, or_false]
  · rw [served?_single, if_neg]
    -- A resource path has no point but the one of its ending.
    intro hpath
    rw [hpath] at hpoint
    exact Holding.not_isPointed_resourcePath name name hpoint
  · rw [served?_insertClass, if_pos ((hread path).mpr (.inr hpoint))]
  · rw [served?_single]
    split <;> simp [*]
  · rw [← ClassName.dropLeadingSlashes_resourcePath hname]
    simp only [List.mem_cons, List.not_mem_nil, or_false]
    rintro entry (rfl | rfl)
    · rw [served?_single]
      simp
    · rw [served?_insertClass]
      simp only [hread, Option.ite_none_right_eq_some, Option.some.injEq, Prod.mk.injEq, and_true]
      exact and_iff_right_of_imp .inl

/-- A class in a package is served by both under its resource path, and by one of them under its
name as well. -/
theorem held_alike_package :
    '/' ∉ "a.B".toList ∧
      served? ⟨[]⟩ ⟨⟨0⟩, .single "a.B" [1]⟩ "//a/B.class" =
        served? ⟨[]⟩ ⟨⟨1⟩, (Holding.emptyMemory "m").insertClass "a.B" [1]⟩ "//a/B.class" ∧
      served? ⟨[]⟩ ⟨⟨0⟩, .single "a.B" [1]⟩ "a/B.class" = some ("a/B.class", .ok [1]) ∧
      served? ⟨[]⟩ ⟨⟨1⟩, (Holding.emptyMemory "m").insertClass "a.B" [1]⟩ "a.B.class" =
        some ("a.B.class", .ok [1]) := by
  have hname : '/' ∉ "a.B".toList := by decide
  obtain ⟨-, halike, hpointed, -, hown⟩ := held_alike ⟨[]⟩ ⟨0⟩ ⟨1⟩ "m" [1] hname
  have hdotted : Holding.IsPointed "a.B.class" "a.B" := ⟨"a.B", rfl, by decide, rfl⟩
  exact ⟨hname, halike "//a/B.class" (Holding.not_isPointed_resourcePath "a.B" "a.B"),
    (hown _ List.mem_cons_self).mpr (by decide), (hpointed "a.B.class" hdotted).2⟩

/-- Under its name with the ending of a class file, only the memory entry serves the class. -/
theorem held_unlike :
    resource? ⟨[]⟩ ⟨⟨0⟩, .single "a.B" [1]⟩ "a.B.class" = none ∧
      resource? ⟨[]⟩ ⟨⟨1⟩, (Holding.emptyMemory "m").insertClass "a.B" [1]⟩ "a.B.class" =
        some (.memory ⟨1⟩ "m" "a.B.class" [1]) := by
  decide

end Entry

end Understudy
