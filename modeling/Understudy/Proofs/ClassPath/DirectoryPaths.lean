import Understudy.Proofs.ClassPath.Location
import Understudy.Proofs.Files.Segments

/-!
The paths under which a directory serves a resource. Slashes in front of a path do not count, and of
what follows, neither do empty segments and points between two names. So a resource is served under
paths that are spelled in many ways; but none of them goes up, and all of them begin and end with a
name. Main statement: `resource?_directory_iff`.
-/

namespace Understudy.Entry

theorem resource?_directory (tree : FileTree) (id : EntryId) (root path : String) :
    resource? tree ⟨id, .directory root⟩ path =
      if Path.isDownward (Path.dropLeadingSlashes path) then
        Resource.file? tree (Path.join root (Path.dropLeadingSlashes path))
      else none :=
  rfl

/-- Without its idle segments, a path stands for itself. -/
theorem resource?_tidied {path tidy : String} (htidy : Path.IsTidied path tidy)
    (hup : ".." ∉ Path.segments path) (tree : FileTree) (id : EntryId) (root : String) :
    resource? tree ⟨id, .directory root⟩ tidy = Resource.file? tree (Path.join root tidy) := by
  rw [resource?_directory,
    Path.dropLeadingSlashes_eq_self_iff.mpr htidy.beginsWithName.relative,
    if_pos (htidy.isDownward hup)]

/-- The paths under which a directory serves a resource, told by how they are spelled and by their
one spelling without idle segments. -/
theorem resource?_directory_iff (tree : FileTree) (id : EntryId) (root path : String)
    (location : Resource) :
    let entry : Entry := ⟨id, .directory root⟩
    let relative := Path.dropLeadingSlashes path
    let segments := Path.segments relative
    entry.resource? tree path = some location ↔
      ".." ∉ segments ∧ Path.BeginsWithName relative ∧ Path.EndsWithName relative ∧
      Path.byteLength (Path.join root relative) < FileTree.maxPathLength ∧
      ∃ tidy, Path.segments tidy = segments.filter (!Path.isIdle ·) ∧
        entry.resource? tree tidy = some location := by
  intro entry relative segments
  have hpath : entry.resource? tree path = if Path.isDownward relative then
      Resource.file? tree (Path.join root relative) else none :=
    resource?_directory tree id root path
  rw [hpath]
  constructor
  · intro h
    rw [Option.ite_none_right_eq_some] at h
    obtain ⟨hdown, hfile⟩ := h
    obtain ⟨hbegins, hup⟩ := Path.isDownward_iff.mp hdown
    obtain ⟨place, hplace, rfl⟩ := Resource.file?_eq_some_iff.mp hfile
    obtain ⟨tidy, htidy⟩ := Path.exists_isTidied (Path.downward_of_isDownward hdown).named
    obtain ⟨hends, hshort, hfound⟩ := (FileTree.file?_join_iff htidy hbegins).mp hplace
    refine ⟨hup, hbegins, hends, hshort, tidy, htidy, ?_⟩
    rw [resource?_tidied htidy hup]
    exact Resource.file?_eq_some_iff.mpr ⟨place, hfound, rfl⟩
  · rintro ⟨hup, hbegins, hends, hshort, tidy, htidy, h⟩
    rw [resource?_tidied htidy hup] at h
    obtain ⟨place, hplace, rfl⟩ := Resource.file?_eq_some_iff.mp h
    rw [if_pos (Path.isDownward_iff.mpr ⟨hbegins, hup⟩)]
    exact Resource.file?_eq_some_iff.mpr
      ⟨place, (FileTree.file?_join_iff htidy hbegins).mpr ⟨hends, hshort, hplace⟩, rfl⟩

/-- A doubled slash between two names does no harm. -/
theorem found_by_doubled_slash :
    let tree : FileTree :=
      ⟨[(["d"], .directory), (["d", "a"], .directory), (["d", "a", "b.txt"], .file [10])]⟩
    resource? tree ⟨⟨0⟩, .directory "/d"⟩ "a//b.txt" = some (.file ["d", "a", "b.txt"]) ∧
      "" ∈ Path.segments (Path.dropLeadingSlashes "a//b.txt") := by
  decide

end Understudy.Entry
