import Understudy.ClassPath.Entry
import Understudy.Proofs.Files.Descent

/-!
A directory on a class path answers for what lies below its root and for nothing else. As long as
there is no link below the root, whatever the name of a class or the path of a resource is, a
resource that is found lies below the place where the root leads, and the bytes of a class are those
of a file there. Nothing that lies elsewhere makes a difference to any answer, the faults included.
Main statement: `directory_confined`.
-/

namespace Understudy

namespace FileTree

variable {tree other : FileTree} {root path : String} {place : Place} {content : Bytes}

/-- The bytes that are read are those of a file below where the root leads. -/
theorem below_of_read_join (hsome : root ≠ "") (hplain : tree.PlainBelow root)
    (hdown : Path.Downward path) (h : tree.read (Path.join root path) = .ok content) :
    ∃ top, tree.resolve root = .ok top ∧
      tree.node? (top ++ Path.plainNames path) = some (.file content) := by
  rw [read] at h
  split at h
  · next place hplace =>
    obtain ⟨top, htop, rfl⟩ := place_eq_of_join hsome hplain hdown hplace
    exact ⟨top, htop, node?_of_contentAt h⟩
  · cases h

/-- The file that is found lies below where the root leads. -/
theorem below_of_file?_join (hsome : root ≠ "") (hplain : tree.PlainBelow root)
    (hdown : Path.Downward path) (h : tree.file? (Path.join root path) = some place) :
    ∃ top content, tree.resolve root = .ok top ∧ place = top ++ Path.plainNames path ∧
      tree.node? place = some (.file content) := by
  rw [file?] at h
  split at h
  · next hplace =>
    split at h
    · next content hfile =>
      obtain rfl := Option.some.inj h
      obtain ⟨top, htop, heq⟩ := place_eq_of_join hsome hplain hdown hplace
      exact ⟨top, content, resolve_of_resolveThrough htop, heq, hfile⟩
    · cases h
  · cases h

variable {passes : Place → Bool}

theorem SameBelow.node?_eq (hsame : tree.SameBelow other passes root) (hsome : root ≠ "")
    (hplain : tree.PlainBelow root) (hdown : Path.Downward path)
    (h : tree.resolveThrough passes (Path.join root path) = .ok place) :
    other.node? place = tree.node? place := by
  obtain ⟨top, htop, rfl⟩ := place_eq_of_join hsome hplain hdown h
  exact hsame.same top htop _

theorem SameBelow.read_join (hsame : tree.SameBelow other (fun _ => true) root) (hsome : root ≠ "")
    (hplain : tree.PlainBelow root) (hdown : Path.Downward path) :
    other.read (Path.join root path) = tree.read (Path.join root path) := by
  rw [read, read, resolve, resolve, hsame.resolveThrough_join hsome hplain hdown]
  split
  · next hplace => rw [contentAt, contentAt, hsame.node?_eq hsome hplain hdown hplace]
  · rfl

theorem SameBelow.file?_join (hsame : tree.SameBelow other isNameable root) (hsome : root ≠ "")
    (hplain : tree.PlainBelow root) (hdown : Path.Downward path) :
    other.file? (Path.join root path) = tree.file? (Path.join root path) := by
  rw [file?, file?, hsame.resolveThrough_join hsome hplain hdown]
  split
  · next hplace => rw [hsame.node?_eq hsome hplain hdown hplace]
  · rfl

end FileTree

namespace Entry

variable {tree other : FileTree} {root : String}

theorem below_of_resource? (id : EntryId) (hsome : root ≠ "") (hplain : tree.PlainBelow root)
    {path : String} {location : Resource}
    (h : resource? tree ⟨id, .directory root⟩ path = some location) :
    ∃ top below content, tree.resolve root = .ok top ∧ below ≠ [] ∧
      location = .file (top ++ below) ∧ tree.node? (top ++ below) = some (.file content) := by
  simp only [resource?] at h
  split at h
  · next hdownward =>
    have hdown := Path.downward_of_isDownward hdownward
    obtain ⟨place, hplace, rfl⟩ := Option.map_eq_some_iff.mp h
    obtain ⟨top, content, htop, rfl, hfile⟩ :=
      FileTree.below_of_file?_join hsome hplain hdown hplace
    exact ⟨top, _, content, htop, hdown.named, rfl, hfile⟩
  · cases h

theorem below_of_classBytes (id : EntryId) (hsome : root ≠ "") (hplain : tree.PlainBelow root)
    {name : String} {bytes : Bytes}
    (h : classBytes tree ⟨id, .directory root⟩ name = .ok (some bytes)) :
    ∃ top below, tree.resolve root = .ok top ∧ below ≠ [] ∧
      tree.node? (top ++ below) = some (.file bytes) := by
  simp only [classBytes] at h
  split at h
  · next hfit =>
    have hdown := Path.downward_of_isDownward (Bool.and_eq_true_iff.mp hfit).2
    split at h
    · next content hread =>
      obtain rfl := Option.some.inj (Except.ok.inj h)
      obtain ⟨top, htop, hfile⟩ := FileTree.below_of_read_join hsome hplain hdown hread
      exact ⟨top, _, htop, hdown.named, hfile⟩
    · cases h
    · cases h
  · cases h

theorem resource?_of_sameBelow (hsame : tree.SameBelow other FileTree.isNameable root)
    (id : EntryId) (hsome : root ≠ "") (hplain : tree.PlainBelow root) (path : String) :
    resource? other ⟨id, .directory root⟩ path = resource? tree ⟨id, .directory root⟩ path := by
  simp only [resource?]
  split
  · next hdownward =>
    rw [Resource.file?, Resource.file?,
      hsame.file?_join hsome hplain (Path.downward_of_isDownward hdownward)]
  · rfl

theorem classBytes_of_sameBelow (hsame : tree.SameBelow other (fun _ => true) root)
    (id : EntryId) (hsome : root ≠ "") (hplain : tree.PlainBelow root) (name : String) :
    classBytes other ⟨id, .directory root⟩ name = classBytes tree ⟨id, .directory root⟩ name := by
  simp only [classBytes]
  split
  · next hfit =>
    rw [hsame.read_join hsome hplain
      (Path.downward_of_isDownward (Bool.and_eq_true_iff.mp hfit).2)]
  · rfl

/-- A directory that has no link below its root is confined to it, in what it answers and in what
its answers depend on. -/
theorem directory_confined (tree : FileTree) (id : EntryId) {root : String} (hsome : root ≠ "")
    (hplain : tree.PlainBelow root) :
    (∀ path location, resource? tree ⟨id, .directory root⟩ path = some location →
      ∃ top below content, tree.resolve root = .ok top ∧ below ≠ [] ∧
        location = .file (top ++ below) ∧ tree.node? (top ++ below) = some (.file content)) ∧
    (∀ name bytes, classBytes tree ⟨id, .directory root⟩ name = .ok (some bytes) →
      ∃ top below, tree.resolve root = .ok top ∧ below ≠ [] ∧
        tree.node? (top ++ below) = some (.file bytes)) ∧
    (∀ other, tree.SameBelow other FileTree.isNameable root → ∀ path,
      resource? other ⟨id, .directory root⟩ path = resource? tree ⟨id, .directory root⟩ path) ∧
    ∀ other, tree.SameBelow other (fun _ => true) root → ∀ name,
      classBytes other ⟨id, .directory root⟩ name = classBytes tree ⟨id, .directory root⟩ name :=
  ⟨fun _ _ => below_of_resource? id hsome hplain, fun _ _ => below_of_classBytes id hsome hplain,
    fun _ hsame => resource?_of_sameBelow hsame id hsome hplain,
    fun _ hsame => classBytes_of_sameBelow hsame id hsome hplain⟩

/-- A link below the root leads anywhere. -/
example : resource? ⟨[(["app"], .directory), (["app", "a.txt"], .link "/secret.txt"),
    (["secret.txt"], .file [7])]⟩ ⟨⟨0⟩, .directory "app"⟩ "a.txt" =
      some (.file ["secret.txt"]) := by
  decide +kernel

/-- A tree in which a link leads to a directory, and something else lies beside it. -/
def aliasedTree (secret : Bytes) : FileTree :=
  ⟨[(["app"], .directory), (["app", "classes"], .directory),
    (["app", "classes", "a.txt"], .file [1]), (["lib"], .link "app/classes"),
    (["secret.txt"], .file secret)]⟩

/-- A file is found below a root that is a link, and another file that lies elsewhere makes no
difference. -/
theorem directory_confined_aliased :
    (∃ top below content, (aliasedTree [7]).resolve "lib" = .ok top ∧ below ≠ [] ∧
      Resource.file ["app", "classes", "a.txt"] = .file (top ++ below) ∧
      (aliasedTree [7]).node? (top ++ below) = some (.file content)) ∧
    (∀ path, resource? (aliasedTree [8]) ⟨⟨0⟩, .directory "lib"⟩ path =
      resource? (aliasedTree [7]) ⟨⟨0⟩, .directory "lib"⟩ path) ∧
    ∀ name, classBytes (aliasedTree [8]) ⟨⟨0⟩, .directory "lib"⟩ name =
      classBytes (aliasedTree [7]) ⟨⟨0⟩, .directory "lib"⟩ name := by
  have hroot : (aliasedTree [7]).resolve "lib" = .ok ["app", "classes"] := by decide +kernel
  have hplain : (aliasedTree [7]).PlainBelow "lib" := by
    intro top htop
    obtain rfl := Except.ok.inj (hroot.symm.trans htop)
    exact FileTree.linkFree_of_nodes (by decide)
  have hsame : (aliasedTree [7]).SameAt (aliasedTree [8]) ["app", "classes"] :=
    FileTree.sameAt_of_nodes rfl
  obtain ⟨hresource, -, hresources, hclasses⟩ :=
    directory_confined (aliasedTree [7]) ⟨0⟩ (by decide) hplain
  refine ⟨hresource "//a.txt" _ (by decide +kernel),
    hresources _ ⟨by decide +kernel, fun top htop => ?_⟩,
    hclasses _ ⟨by decide +kernel, fun top htop => ?_⟩⟩
  · obtain rfl := Except.ok.inj (hroot.symm.trans (FileTree.resolve_of_resolveThrough htop))
    exact hsame
  · obtain rfl := Except.ok.inj (hroot.symm.trans htop)
    exact hsame

end Entry

end Understudy
