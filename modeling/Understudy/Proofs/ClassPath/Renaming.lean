import Mathlib.Data.List.Basic
import Understudy.ClassPath.Basic
import Understudy.Proofs.ClassPath.Merge

/-!
Entries under other identities. What entries hold does not depend on their identities: the same
classes are found on a class path whose entries are renamed, and the same resources, at locations
that are renamed alike. Locations that are told apart stay so if no two entries get the same name.
-/

namespace Understudy

namespace Resource

/-- The same location where entries have other identities. -/
def rename (f : EntryId → EntryId) : Resource → Resource
  | file place => .file place
  | memory entry origin path data => .memory (f entry) origin path data

/-- What tells a location apart where entries have other identities. -/
def Key.rename (f : EntryId → EntryId) : Key → Key
  | file place => .file place
  | memory entry path => .memory (f entry) path

variable {f : EntryId → EntryId}

@[simp]
theorem key_rename (f : EntryId → EntryId) (r : Resource) :
    (r.rename f).key = r.key.rename f := by
  cases r <;> rfl

theorem Key.rename_injective (hf : Function.Injective f) : Function.Injective (Key.rename f) := by
  intro a b h
  cases a with
  | file place =>
    cases b with
    | file other => exact h
    | memory entry path => cases h
  | memory entry path =>
    cases b with
    | file place => cases h
    | memory other path' =>
      obtain ⟨hentry, rfl⟩ := Key.memory.inj h
      rw [hf hentry]

@[simp]
theorem rename_file? (tree : FileTree) (path : String) :
    (file? tree path).map (rename f) = file? tree path := by
  simp [file?, Function.comp_def, rename]

end Resource

theorem Merge.unseen_map_rename {f : EntryId → EntryId} (hf : Function.Injective f)
    (seen : List Resource.Key) (items : List Resource) :
    unseen (seen.map (Resource.Key.rename f)) (items.map (Resource.rename f)) =
      (unseen seen items).map (Resource.rename f) := by
  induction items generalizing seen with
  | nil => rfl
  | cons item rest ih =>
    have hmem : (item.rename f).key ∈ seen.map (Resource.Key.rename f) ↔ item.key ∈ seen := by
      rw [Resource.key_rename, List.mem_map_of_injective (Resource.Key.rename_injective hf)]
    by_cases h : item.key ∈ seen
    · rw [List.map_cons, unseen_cons_of_mem (hmem.mpr h), unseen_cons_of_mem h, ih]
    · rw [List.map_cons, unseen_cons_of_notMem (fun h' => h (hmem.mp h')),
        unseen_cons_of_notMem h, List.map_cons, Resource.key_rename, ← List.map_cons, ih]

theorem Resource.firsts_map_rename {f : EntryId → EntryId} (hf : Function.Injective f)
    (items : List Resource) :
    firsts (items.map (rename f)) = (firsts items).map (rename f) := by
  rw [← Merge.unseen_nil, ← Merge.unseen_nil, ← Merge.unseen_map_rename hf, List.map_nil]

/-- The same entry under another identity. -/
def Entry.rename (f : EntryId → EntryId) (entry : Entry) : Entry := ⟨f entry.id, entry.holding⟩

theorem Entry.rename_injective {f : EntryId → EntryId} (hf : Function.Injective f) :
    Function.Injective (rename f) := by
  intro a b h
  obtain ⟨hid, hholding⟩ := Entry.mk.inj h
  cases a
  cases b
  simp_all [hf.eq_iff]

theorem Entry.resource?_rename (f : EntryId → EntryId) (tree : FileTree) (entry : Entry)
    (path : String) :
    (entry.rename f).resource? tree path = (entry.resource? tree path).map (Resource.rename f) := by
  obtain ⟨id, holding⟩ := entry
  simp only [rename, resource?]
  cases holding with
  | directory root => simp only; split <;> simp
  | single className bytes => simp only; split <;> simp [Resource.rename]
  | memory label classes resources =>
    simp only [Option.map_map]
    rfl

namespace ClassPath

/-- The same class path where entries have other identities. -/
def rename (f : EntryId → EntryId) (cp : ClassPath) : ClassPath := ⟨cp.entries.map (Entry.rename f)⟩

theorem findBytes_map_rename (f : EntryId → EntryId) (tree : FileTree) (name : String)
    (entries : List Entry) :
    findBytes tree name (entries.map (Entry.rename f)) = findBytes tree name entries := by
  induction entries with
  | nil => rfl
  | cons entry rest ih =>
    have hbytes : (entry.rename f).classBytes tree name = entry.classBytes tree name := rfl
    rw [List.map_cons, findBytes, hbytes, ih]
    rfl

/-- The same classes are found. -/
@[simp]
theorem find_rename (f : EntryId → EntryId) (tree : FileTree) (cp : ClassPath) (name : String) :
    (cp.rename f).find tree name = cp.find tree name := by
  rw [find, find, rename, findBytes_map_rename]

@[simp]
theorem resources_rename (f : EntryId → EntryId) (tree : FileTree) (cp : ClassPath)
    (path : String) :
    (cp.rename f).resources tree path = (cp.resources tree path).map (Resource.rename f) := by
  simp only [resources, rename, List.filterMap_map, List.map_filterMap, Function.comp_def,
    Entry.resource?_rename]

end ClassPath

end Understudy
