import Understudy.Proofs.ClassPath.Merge
import Understudy.Proofs.Session.Deferral
import Understudy.Session.Resources

/-!
What loaders serve as resources. A loader over a host, be it one itself or defer by way of selective
loaders to one, serves the locations that its own class path holds, in their order, and then those
of the loader below it, each only where it comes first; so none comes twice and none is lost. Asked
for one location it serves the first of them. Slashes in front of the path do not count. Main
statement: `resources_overHost`.
-/

namespace Understudy

/-! ### Slashes in front of a path -/

theorem Path.dropLeadingSlashes_slashes (slashes : Nat) (path : String) :
    dropLeadingSlashes (String.ofList (List.replicate slashes '/') ++ path) =
      dropLeadingSlashes path := by
  rw [dropLeadingSlashes, dropLeadingSlashes, String.toList_append, String.toList_ofList,
    List.dropWhile_append_of_pos fun c hc => by simp [List.eq_of_mem_replicate hc]]

/-- Entries of every kind look at a path without the slashes in front of it. -/
theorem Entry.resource?_slashes (tree : FileTree) (entry : Entry) (slashes : Nat) (path : String) :
    entry.resource? tree (String.ofList (List.replicate slashes '/') ++ path) =
      entry.resource? tree path := by
  rw [Entry.resource?, Entry.resource?, Path.dropLeadingSlashes_slashes]

namespace ClassPath

theorem resources_slashes (tree : FileTree) (cp : ClassPath) (slashes : Nat) (path : String) :
    cp.resources tree (String.ofList (List.replicate slashes '/') ++ path) =
      cp.resources tree path := by
  simp only [resources, Entry.resource?_slashes]

theorem head?_resources (tree : FileTree) (cp : ClassPath) (path : String) :
    (cp.resources tree path).head? = cp.resource? tree path :=
  List.head?_filterMap

end ClassPath

namespace Session

variable {s : Session} {id : LoaderId}

/-! ### One loader -/

theorem resource_of_host {host : HostLoader} (h : s.loader? id = some (.host host))
    (path : String) :
    s.resource id path = (s.classPathOf host.entries).resource? s.files path := by
  obtain ⟨depth, hdepth⟩ := exists_length_eq_add_one h
  simp only [resource, hdepth, resourceWithin, h]

theorem resources_of_host {host : HostLoader} (h : s.loader? id = some (.host host))
    (path : String) :
    s.resources id path = (s.classPathOf host.entries).resources s.files path := by
  obtain ⟨depth, hdepth⟩ := exists_length_eq_add_one h
  simp only [resources, hdepth, resourcesWithin, h]

theorem asksDown_resourceWithin (s : Session) (path : String) :
    AsksDown s fun depth id => resourceWithin depth s id path where
  host h depth other := by simp only [resourceWithin, h]
  selective h depth other hsame := by simp only [resourceWithin, h, hsame]

theorem asksDown_resourcesWithin (s : Session) (path : String) :
    AsksDown s fun depth id => resourcesWithin depth s id path where
  host h depth other := by simp only [resourcesWithin, h]
  selective h depth other hsame := by simp only [resourcesWithin, h, hsame]

theorem resource_of_selective {loader : SelectiveLoader}
    (h : s.loader? id = some (.selective loader)) (below : OverHost s loader.deferred)
    (path : String) :
    s.resource id path = ((s.classPathOf loader.entries).resource? s.files path).or
      (s.resource loader.deferred path) := by
  obtain ⟨depth, hdepth⟩ := exists_length_eq_add_one h
  have hbelow : resourceWithin depth s loader.deferred path = s.resource loader.deferred path :=
    (asksDown_resourceWithin s path).ask_deferred_eq h below hdepth
  rw [resource, hdepth]
  simp only [resourceWithin, h, hbelow]
  cases (s.classPathOf loader.entries).resource? s.files path <;> rfl

theorem resources_of_selective {loader : SelectiveLoader}
    (h : s.loader? id = some (.selective loader)) (below : OverHost s loader.deferred)
    (path : String) :
    s.resources id path = Resource.firsts ((s.classPathOf loader.entries).resources s.files path ++
      s.resources loader.deferred path) := by
  obtain ⟨depth, hdepth⟩ := exists_length_eq_add_one h
  have hbelow : resourcesWithin depth s loader.deferred path =
      s.resources loader.deferred path :=
    (asksDown_resourcesWithin s path).ask_deferred_eq h below hdepth
  rw [resources, hdepth]
  simp only [resourcesWithin, h, hbelow, Merge.collect_eq, List.flatten_cons, List.flatten_nil,
    List.append_nil]

/-! ### All loaders over hosts -/

/-- By induction on the way down to the host. -/
theorem OverHost.resource_eq (h : OverHost s id) (path : String) :
    s.resource id path = (s.resources id path).head? := by
  induction h with
  | host here => rw [resource_of_host here, resources_of_host here, ClassPath.head?_resources]
  | selective here below ih =>
    rw [resource_of_selective here below, resources_of_selective here below, Resource.head?_firsts,
      List.head?_append, ClassPath.head?_resources, ih]

theorem OverHost.resources_slashes (h : OverHost s id) (slashes : Nat) (path : String) :
    s.resources id (String.ofList (List.replicate slashes '/') ++ path) = s.resources id path := by
  induction h with
  | host here =>
    rw [resources_of_host here, resources_of_host here, ClassPath.resources_slashes]
  | selective here below ih =>
    rw [resources_of_selective here below, resources_of_selective here below,
      ClassPath.resources_slashes, ih]

/-- The locations that some entries hold, in the order of the entries. -/
theorem resources_classPathOf (s : Session) (entries : List EntryId) (path : String) :
    (s.classPathOf entries).resources s.files path =
      entries.filterMap fun entry => (s.entryAt? entry).bind (·.resource? s.files path) := by
  rw [classPathOf, ClassPath.resources, List.filterMap_filterMap]

/-- All resources under a path, and the one resource under it, of a loader that is a host or defers
by way of selective loaders to one. -/
theorem resources_overHost (h : OverHost s id) (path : String) :
    (∀ loader, s.loader? id = some (.selective loader) →
      let own := loader.entries.filterMap fun entry =>
        (s.entryAt? entry).bind (·.resource? s.files path)
      let below := s.resources loader.deferred path
      s.resources id path = (own ++ below).eraseDupsBy (fun a b => a.key == b.key) ∧
      ((s.resources id path).map (·.key)).Nodup ∧
      ∀ location ∈ own ++ below, location.key ∈ (s.resources id path).map (·.key)) ∧
    s.resource id path = (s.resources id path).head? ∧
    (s.resource id path = none ↔ s.resources id path = []) ∧
    ∀ slashes, let slashed := String.ofList (List.replicate slashes '/') ++ path
      s.resource id slashed = s.resource id path ∧
        s.resources id slashed = s.resources id path := by
  refine ⟨fun loader hloader => ?_, h.resource_eq path, ?_, fun slashes => ?_⟩
  · intro own below
    have hlaw : s.resources id path = Resource.firsts (own ++ below) := by
      cases h with
      | host here => rw [here] at hloader; cases hloader
      | selective here hbelow =>
        rw [here] at hloader
        cases hloader
        rw [resources_of_selective here hbelow, resources_classPathOf]
    refine ⟨hlaw, ?_, fun location hlocation => ?_⟩
    · rw [hlaw]
      exact Resource.nodup_keys_firsts _
    · rw [hlaw]
      exact Resource.mem_keys_firsts_iff.mpr (List.mem_map_of_mem hlocation)
  · rw [h.resource_eq, List.head?_eq_none_iff]
  · have hslashes := h.resources_slashes slashes path
    exact ⟨by rw [h.resource_eq, hslashes, ← h.resource_eq], hslashes⟩

/-- Two selective loaders, one over the other, over a host. All three share an entry, and the upper
one has an entry of its own that holds the same path. -/
def sharing : Session :=
  let shared : Holding := .memory "shared" [] [("a.txt", [1])]
  let loader : SelectiveLoader :=
    { policy := ⟨[], [], [], []⟩
      suppressStatic := []
      entries := [⟨0⟩]
      deferred := ⟨1⟩
      domain := {} }
  { start .empty with
    holdings := [shared, .memory "own" [] [("a.txt", [2])]]
    loaders := [.host { entries := [] }, .host { entries := [⟨0⟩] }, .selective loader,
      .selective { loader with entries := [⟨0⟩, ⟨1⟩], deferred := ⟨2⟩ }] }

/-- The upper loader serves the shared location once, and first. -/
theorem resources_overHost_sharing :
    (sharing.resources ⟨3⟩ "a.txt").map (·.key) = [.memory ⟨0⟩ "a.txt", .memory ⟨1⟩ "a.txt"] ∧
      ((sharing.resources ⟨3⟩ "a.txt").map (·.key)).Nodup ∧
      sharing.resource ⟨3⟩ "//a.txt" = (sharing.resources ⟨3⟩ "a.txt").head? := by
  have hover : OverHost sharing ⟨3⟩ := .selective rfl (.selective rfl (.host rfl))
  obtain ⟨hlaw, hfirst, -, hslashes⟩ := resources_overHost hover "a.txt"
  refine ⟨by decide +kernel, (hlaw _ rfl).2.1, ?_⟩
  rw [← hfirst, ← (hslashes 2).1]
  rfl

end Session

end Understudy
