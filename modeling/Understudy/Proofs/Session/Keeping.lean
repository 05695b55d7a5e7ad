import Understudy.Proofs.ClassFile.Stub
import Understudy.Proofs.ClassPath.Spelling
import Understudy.Proofs.Session.Absence
import Understudy.Proofs.Session.Locations
import Understudy.Proofs.Session.Use

/-!
The bytes of classes that are defined directly. A class path only grows at its end, and an entry
that holds a single class holds it for good. So the bytes that a selective loader keeps of a class
are served ever after under the class's resource path, behind what the entries in front of them
serve there. The name must not begin with a point, since its resource path would begin with a slash.
Main statement: `define_keeps_bytes`.
-/

namespace Understudy

namespace Session

variable {s t u : Session} {id : LoaderId} {loader : SelectiveLoader}

/-! ### Class paths grow -/

/-- Selective loaders stay, with their entries in front of those that were appended since, and
single classes stay where they are. -/
structure Keeps (s t : Session) : Prop where
  paths : ∀ id loader, s.loader? id = some (.selective loader) →
    ∃ after, t.loader? id = some (.selective after) ∧ loader.entries <+: after.entries
  singles : ∀ entry name bytes, s.entryAt? entry = some ⟨entry, .single name bytes⟩ →
    t.entryAt? entry = some ⟨entry, .single name bytes⟩

theorem Keeps.refl (s : Session) : Keeps s s :=
  ⟨fun _ loader h => ⟨loader, h, List.prefix_refl _⟩, fun _ _ _ h => h⟩

theorem Keeps.trans (h : Keeps s t) (k : Keeps t u) : Keeps s u := by
  refine ⟨fun id loader hloader => ?_, fun entry name bytes hentry =>
    k.singles entry name bytes (h.singles entry name bytes hentry)⟩
  obtain ⟨between, hbetween, hfront⟩ := h.paths id loader hloader
  obtain ⟨after, hafter, hmore⟩ := k.paths id between hbetween
  exact ⟨after, hafter, hfront.trans hmore⟩

theorem keeps_updateLoader (s : Session) (target : LoaderId) {f : Loader → Loader}
    (hf : ∀ m, ∃ m', f (.selective m) = .selective m' ∧ m.entries <+: m'.entries) :
    Keeps s (s.updateLoader target f) := by
  refine ⟨fun id loader hloader => ?_, fun _ _ _ h => h⟩
  by_cases hid : id = target
  · obtain ⟨after, hafter, hfront⟩ := hf loader
    refine ⟨after, ?_, hfront⟩
    rw [hid] at hloader
    rw [hid, loader?_updateLoader_self, hloader, Option.map_some, hafter]
  · exact ⟨loader, by rw [loader?_updateLoader_of_ne s f hid, hloader], List.prefix_refl _⟩

/-- A change of a selective loader otherwise than in its entries. -/
theorem keeps_mapSelective (s : Session) (target : LoaderId)
    {f : SelectiveLoader → SelectiveLoader} (hf : ∀ m, (f m).entries = m.entries) :
    Keeps s (s.updateLoader target (·.mapSelective f)) :=
  keeps_updateLoader s target fun m => ⟨f m, rfl, hf m ▸ List.prefix_refl _⟩

theorem keeps_appendTo (s : Session) (target : LoaderId) (entry : EntryId) :
    Keeps s (s.appendTo target entry) :=
  keeps_updateLoader s target fun m =>
    ⟨{ m with entries := m.entries ++ [entry] }, rfl, List.prefix_append _ _⟩

theorem keeps_addLoader (s : Session) (l : Loader) : Keeps s (s.addLoader l).2 := by
  refine ⟨fun id loader hloader => ⟨loader, ?_, List.prefix_refl _⟩, fun _ _ _ h => h⟩
  rw [loader?_addLoader_of_ne s l, hloader]
  rintro rfl
  have hnone : s.loader? (s.addLoader l).1 = none := List.getElem?_eq_none (Nat.le_refl _)
  rw [hnone] at hloader
  cases hloader

theorem AddsEntries.keeps (h : AddsEntries s t) : Keeps s t := by
  obtain ⟨more, rfl⟩ := h
  refine ⟨fun _ loader h => ⟨loader, h, List.prefix_refl _⟩, fun entry name bytes hentry => ?_⟩
  obtain ⟨held, hheld, heq⟩ := Option.map_eq_some_iff.mp hentry
  have hmore : (s.holdings ++ more)[entry.value]? = some held := by
    rw [List.getElem?_append_left (List.getElem?_eq_some_iff.mp hheld).1, hheld]
  rw [entryAt?, hmore, Option.map_some, heq]

theorem keeps_updateEntry (s : Session) (target : EntryId) {f : Holding → Holding}
    (hf : ∀ name bytes, f (.single name bytes) = .single name bytes) :
    Keeps s (s.updateEntry target f) := by
  refine ⟨fun _ loader h => ⟨loader, h, List.prefix_refl _⟩, fun entry name bytes hentry => ?_⟩
  by_cases heq : entry = target
  · rw [heq] at hentry
    rw [heq, entryAt?_updateEntry_self, hentry, Option.map_some, hf]
  · rw [entryAt?_updateEntry_of_ne s f heq, hentry]

theorem keeps_enter (s : Session) (c : DefinedClass) : Keeps s (s.enter c) := by
  have hkeeps : Keeps s (s.updateLoader c.loader (·.mapTable (·.insert c.file.name c))) :=
    keeps_updateLoader s c.loader fun m => ⟨_, rfl, List.prefix_refl _⟩
  exact ⟨hkeeps.paths, hkeeps.singles⟩

theorem keeps_keepBytes (s : Session) (id : LoaderId) (c : DefinedClass) :
    Keeps s (s.keepBytes id c) :=
  (addsEntries_addEntry s _).keeps.trans (keeps_appendTo _ id _)

theorem Searches.keeps {among : LoaderId → Prop} {name : String} {success : Bool}
    (h : Searches among name success s t) : Keeps s t := by
  refine ⟨fun id loader hloader => ?_, fun entry _ _ hentry => by rw [h.entryAt?_eq, hentry]⟩
  obtain ⟨_, _, hafter⟩ := h.exists_selective hloader
  exact ⟨_, hafter, List.prefix_refl _⟩

theorem keeps_define (id : LoaderId) (d : Definition) (s : Session) :
    Keeps s (define id d s).2 := by
  cases h : (define id d s).1 with
  | error e =>
    rw [define_of_error h]
    exact .refl s
  | ok c =>
    rcases (define_of_ok h).2.2 with hafter | hafter
    · rw [hafter]
      exact keeps_enter s c
    · rw [hafter]
      exact (keeps_enter s c).trans (keeps_keepBytes _ id c)

theorem keeps_request (request : Request) (s : Session) : Keeps s (request.perform s).2 := by
  cases request with
  | load id name => exact (searches_load id name s).keeps
  | find id name => exact (searches_find id name s).keeps
  | define id d => exact keeps_define id d s

theorem keeps_change (change : Change) (s : Session) : Keeps s (change.perform s) := by
  cases change with
  | putFiles _ => exact ⟨(Keeps.refl s).paths, (Keeps.refl s).singles⟩
  | addEntry holding => exact (addsEntries_addEntry s holding).keeps
  | insertClass entry _ _ => exact keeps_updateEntry s entry fun _ _ => rfl
  | insertResource entry _ _ => exact keeps_updateEntry s entry fun _ _ => rfl
  | addHost _ => exact keeps_addLoader s _
  | addResourceLoader _ _ => exact keeps_addLoader s _
  | addSelective config =>
    have hspec := addSelective_spec config s
    rw [Change.perform]
    rcases hadded : s.addSelective config with ⟨e | new, t⟩
    · rw [hadded] at hspec
      exact hspec.keeps
    · rw [hadded] at hspec
      obtain ⟨u, entries, hentries, hnew⟩ := hspec
      obtain ⟨-, rfl⟩ := Prod.mk.inj hnew
      exact hentries.keeps.trans (keeps_addLoader u _)
  | appendTo id entry => exact keeps_appendTo s id entry
  | setChain id _ => exact keeps_mapSelective s id fun _ => rfl
  | setDeferred id _ => exact keeps_mapSelective s id fun _ => rfl
  | addInterceptor id _ => exact keeps_mapSelective s id fun _ => rfl
  | addIgnores id _ => exact keeps_mapSelective s id fun _ => rfl

/-- By induction on the operations. -/
theorem keeps_run (ops : List Operation) (s : Session) : Keeps s (run ops s).2 := by
  induction ops generalizing s with
  | nil => exact .refl s
  | cons op rest ih =>
    cases op with
    | request request => exact (keeps_request request s).trans (ih _)
    | change change => exact (keeps_change change s).trans (ih _)

/-! ### The bytes that are kept -/

variable {d : Definition} {c : DefinedClass}

theorem loader?_keepBytes_of_selective (h : s.loader? id = some (.selective loader)) :
    (s.keepBytes id c).loader? id =
      some (.selective { loader with entries := loader.entries ++ [⟨s.holdings.length⟩] }) := by
  have hself := loader?_updateLoader_self (s.addEntry (.single c.file.name c.file.bytes)).2 id
    (·.mapEntries (· ++ [⟨s.holdings.length⟩]))
  exact hself.trans (congrArg (Option.map _) h)

/-- The bytes of a class defined directly are the entry that a selective loader appends. -/
theorem exists_kept_of_define (hloader : s.loader? id = some (.selective loader))
    (h : (define id d s).1 = .ok c) :
    ∃ entry after, (define id d s).2.loader? id = some (.selective after) ∧
      after.entries = loader.entries ++ [entry] ∧
      (define id d s).2.entryAt? entry = some ⟨entry, .single d.name c.file.bytes⟩ := by
  rw [define, hloader] at h ⊢
  dsimp only at h ⊢
  rw [defineInTable] at h ⊢
  cases hclass : d.classIn (s.tableOf id) id ⟨s.nextHandle⟩ with
  | error e =>
    rw [hclass] at h
    cases h
  | ok defined =>
    rw [hclass] at h
    obtain rfl := Except.ok.inj h
    obtain ⟨hshape, hfile, -⟩ := Definition.classIn_eq_ok hclass
    have hname : defined.file.name = d.name := (Definition.classFile_eq_ok hfile).2.2
    obtain rfl : defined.loader = id := by rw [hshape]
    refine ⟨⟨s.holdings.length⟩, _,
      loader?_keepBytes_of_selective (loader?_enter_self hloader), rfl, ?_⟩
    rw [← hname]
    exact entryAt?_addEntry_self (s.enter defined) _

/-- What is appended to a class path is served behind what is served before. -/
theorem resource?_classPathOf_kept {entry : EntryId} {e : Entry} (he : s.entryAt? entry = some e)
    (before behind : List EntryId) (path : String) {location : Resource}
    (hlocation : e.resource? s.files path = some location) :
    (s.classPathOf (before ++ [entry] ++ behind)).resource? s.files path =
      ((s.classPathOf before).resource? s.files path).or (some location) := by
  rw [List.append_assoc, ClassPath.resource?, entries_classPathOf_append, List.singleton_append,
    entries_classPathOf_cons he, List.findSome?_append, List.findSome?_cons, hlocation,
    ClassPath.resource?]

/-- What the own class path of a selective loader serves comes first. -/
theorem resource_of_own (hloader : s.loader? id = some (.selective loader)) {path : String}
    {location : Resource}
    (h : (s.classPathOf loader.entries).resource? s.files path = some location) :
    s.resource id path = some location := by
  obtain ⟨depth, hdepth⟩ := exists_length_eq_add_one hloader
  simp only [resource, hdepth, resourceWithin, hloader, h]

/-- What an entry on the own class path of a selective loader serves is among all that the loader
serves, or else a location that counts as the same. -/
theorem mem_keys_resources_of_own (hloader : s.loader? id = some (.selective loader))
    {entry : EntryId} (hentry : entry ∈ loader.entries) {e : Entry}
    (he : s.entryAt? entry = some e) {path : String} {location : Resource}
    (h : e.resource? s.files path = some location) :
    location.key ∈ (s.resources id path).map (·.key) := by
  obtain ⟨depth, hdepth⟩ := exists_length_eq_add_one hloader
  simp only [resources, hdepth, resourcesWithin, hloader, Merge.collect_eq]
  rw [Resource.mem_keys_firsts_iff]
  refine List.mem_map_of_mem (List.mem_flatten.mpr ⟨_, List.mem_cons_self, ?_⟩)
  exact List.mem_filterMap.mpr ⟨e, List.mem_filterMap.mpr ⟨entry, hentry, he⟩, h⟩

/-- No two locations in the memory of one entry count as the same under one path. -/
theorem mem_resources_of_key {entry : EntryId} {e : Entry} (he : s.entryAt? entry = some e)
    {path p : String} {location : Resource} (h : e.resource? s.files path = some location)
    (hkey : location.key = .memory entry p)
    (hserved : location.key ∈ (s.resources id path).map (·.key)) :
    location ∈ s.resources id path := by
  obtain ⟨found, hfound, heq⟩ := List.mem_map.mp hserved
  rw [hkey] at heq
  rcases exists_of_mem_resourcesWithin hfound with ⟨other, e', he', hlocation⟩ | ⟨q, hfile⟩
  -- The key tells the entry, wherever on the way to the host the location was found.
  · have hid : e'.id = entry := Entry.id_of_resource? hlocation heq
    obtain ⟨_, -, rfl⟩ := Option.map_eq_some_iff.mp he'
    obtain rfl : other = entry := hid
    rw [he] at he'
    rw [← Option.some.inj he', h] at hlocation
    rwa [Option.some.inj hlocation]
  · obtain ⟨_, -, rfl⟩ := Resource.file?_eq_some_iff.mp hfile
    cases heq

/-- A class that is defined directly in a selective loader is served under its resource path from
then on, whatever happens. -/
theorem define_keeps_bytes {d : Definition} {c : DefinedClass}
    (hloader : s.loader? id = some (.selective loader)) (hdefine : (define id d s).1 = .ok c)
    (hpoint : d.name.toList.head? ≠ some '.') :
    let path := ClassName.resourcePath d.name
    ∃ location, location.path = path ∧ ∀ ops, let t := (run ops (define id d s).2).2
      location.read t.files = .ok c.file.bytes ∧
      t.resource id path =
        ((t.classPathOf loader.entries).resource? t.files path).or (some location) ∧
      location ∈ t.resources id path := by
  intro path
  obtain ⟨entry, defined, hdefined, hentries, hentry⟩ := exists_kept_of_define hloader hdefine
  have hslash : '/' ∉ d.name.toList := by
    obtain ⟨-, hclass, -⟩ := define_of_ok hdefine
    obtain ⟨-, hparse, hname⟩ :=
      Definition.classFile_eq_ok (Definition.classIn_eq_ok hclass).2.1
    rw [← hname]
    exact ClassFile.slash_notMem_of_parse hparse
  refine ⟨.memory entry ("bytes:" ++ d.name) path c.file.bytes, rfl, fun ops => ?_⟩
  intro t
  -- The entry stands behind those that were there before, and in front of those that came since.
  have hkeeps : Keeps (define id d s).2 t := keeps_run ops _
  obtain ⟨after, hafter, behind, hbehind⟩ := hkeeps.paths id defined hdefined
  have hkept := hkeeps.singles entry d.name c.file.bytes hentry
  have hserved : Entry.resource? t.files ⟨entry, .single d.name c.file.bytes⟩ path =
      some (.memory entry ("bytes:" ++ d.name) path c.file.bytes) :=
    Entry.resource?_single t.files entry hslash hpoint
  rw [hentries] at hbehind
  refine ⟨rfl, ?_, ?_⟩
  · rw [Option.or_some]
    refine resource_of_own hafter ?_
    rw [← hbehind, resource?_classPathOf_kept hkept loader.entries behind path hserved,
      Option.or_some]
  · have hmem : entry ∈ after.entries := by
      rw [← hbehind]
      simp
    exact mem_resources_of_key hkept hserved rfl
      (mem_keys_resources_of_own hafter hmem hkept hserved)

/-- A loader with one entry, that holds some resources, over an empty host. -/
def stocked (resources : Keyed Bytes) : Session :=
  { start ⟨[]⟩ with
    holdings := [.memory "e" [] resources]
    loaders := [.host { entries := [] }, .selective
      { policy := ⟨[], [], [], []⟩
        suppressStatic := []
        entries := [⟨0⟩]
        deferred := ⟨0⟩
        domain := {} }] }

/-- A class A. -/
def classA : Definition := .whole "A" (Stub.encode { name := "A" }) {}

/-- Insertions for the class and for another one, and then the class is asked for. -/
def insertions : List Operation :=
  [.change (.insertClass ⟨1⟩ "A" [2]), .change (.insertResource ⟨0⟩ "B.class" [3]),
    .request (.load ⟨1⟩ "A")]

/-- Another class and another resource are inserted meanwhile, and the bytes are served still. -/
theorem define_keeps_bytes_inserting :
    let s := stocked [("a.txt", [1])]
    let t := (run insertions (define ⟨1⟩ classA s).2).2
    "A".toList.head? ≠ some '.' ∧ ∃ c location, (define ⟨1⟩ classA s).1 = .ok c ∧
      t.resource ⟨1⟩ "A.class" = some location ∧ location ∈ t.resources ⟨1⟩ "A.class" ∧
        location.read t.files = .ok c.file.bytes := by
  intro s t
  have hdefine : (define ⟨1⟩ classA s).1 = .ok ⟨⟨0⟩, ⟨1⟩, {}, Stub.file { name := "A" }⟩ := by
    decide +kernel
  have hpoint : classA.name.toList.head? ≠ some '.' := by decide
  obtain ⟨location, -, hserved⟩ := define_keeps_bytes rfl hdefine hpoint
  obtain ⟨hread, hresource, hmem⟩ := hserved insertions
  have hnothing : (t.classPathOf [⟨0⟩]).resource? t.files "A.class" = none := by decide +kernel
  exact ⟨hpoint, _, location, hdefine,
    hresource.trans (congrArg (Option.or · (some location)) hnothing), hmem, hread⟩

/-- A resource that lies in an entry before, under the path of the class. -/
theorem kept_bytes_behind :
    ∃ c, (define ⟨1⟩ classA (stocked [("A.class", [1])])).1 = .ok c ∧
      let t := (define ⟨1⟩ classA (stocked [("A.class", [1])])).2
      (t.resource ⟨1⟩ (ClassName.resourcePath "A")).map (·.read t.files) = some (.ok [1]) ∧
        c.file.bytes ≠ [1] := by
  refine ⟨⟨⟨0⟩, ⟨1⟩, {}, Stub.file { name := "A" }⟩, ?_, ?_, ?_⟩
  · decide +kernel
  · decide +kernel
  · decide +kernel

end Session

end Understudy
