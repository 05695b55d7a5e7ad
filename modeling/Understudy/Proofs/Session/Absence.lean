import Understudy.Proofs.ClassPath.Absence
import Understudy.Proofs.Session.Search

/-!
Class paths that find the same. What a loader answers depends on its class path only through what is
found there, so a loader may be given other entries: if they find the same under a name, every
request for the name is answered as before, whichever loader it is made to.

A directory that denies that it has the class is such an entry to give, and so is any directory
behind an entry that answers for the class. One that has nothing at the path of a class need not
deny it: what is no directory, but a file, denies no class that could lie in a directory, and where
it is asked, its fault is all that is found. Main statement: `directory_without_class`.
-/

namespace Understudy

namespace Session

/-- Gives a loader other entries. -/
def editEntries (owner : LoaderId) (f : List EntryId → List EntryId) (s : Session) : Session :=
  s.updateLoader owner (·.mapEntries f)

/-- The other entries of a loader find the same under a name. -/
def FindsSame (owner : LoaderId) (f : List EntryId → List EntryId) (name : String) (s : Session) :
    Prop :=
  ∀ l, s.loader? owner = some l →
    (s.classPathOf (f l.entries)).find s.files name = (s.classPathOf l.entries).find s.files name

/-- Asking for a name makes no difference between the entries of a loader and other ones. -/
def Overlooks (owner : LoaderId) (f : List EntryId → List EntryId) (name : String) (ask : Asking) :
    Prop :=
  ∀ asked s, FindsSame owner f name s →
    ask asked name (s.editEntries owner f) = Prod.map id (editEntries owner f) (ask asked name s)

variable {s : Session} {owner asked : LoaderId} {f : List EntryId → List EntryId} {name : String}

/-! ### Other entries, and the single changes of a search -/

theorem updateLoader_comm (s : Session) (owner other : LoaderId) {g k : Loader → Loader}
    (h : ∀ l, k (g l) = g (k l)) :
    (s.updateLoader owner g).updateLoader other k =
      (s.updateLoader other k).updateLoader owner g := by
  rw [updateLoader, updateLoader, updateLoader, updateLoader, Session.mk.injEq]
  refine ⟨rfl, rfl, List.ext_getElem? fun position => ?_, rfl, rfl⟩
  rw [List.getElem?_modify, List.getElem?_modify, List.getElem?_modify, List.getElem?_modify]
  cases s.loaders[position]? with
  | none => rfl
  | some l =>
    by_cases howner : owner.value = position <;> by_cases hother : other.value = position <;>
      simp [howner, hother, h]

theorem count_editEntries (s : Session) (other : LoaderId) (event : LoadEvent) :
    (s.editEntries owner f).count other event = (s.count other event).editEntries owner f :=
  updateLoader_comm s owner other fun l => by cases l <;> rfl

theorem enter_editEntries (s : Session) (c : DefinedClass) :
    (s.editEntries owner f).enter c = (s.enter c).editEntries owner f := by
  have hcomm : (s.editEntries owner f).updateLoader c.loader (·.mapTable (·.insert c.file.name c)) =
      (s.updateLoader c.loader (·.mapTable (·.insert c.file.name c))).editEntries owner f :=
    updateLoader_comm s owner c.loader fun l => by cases l <;> rfl
  rw [enter, hcomm]
  rfl

theorem loader?_editEntries_of_none (here : s.loader? asked = none) :
    (s.editEntries owner f).loader? asked = none := by
  by_cases howner : asked = owner
  · subst howner
    rw [editEntries, loader?_updateLoader_self, here]
    rfl
  · rw [editEntries, loader?_updateLoader_of_ne s _ howner, here]

/-- Any loader has entries that find the same, be they other ones or not. -/
theorem exists_loader?_editEntries {l : Loader} (here : s.loader? asked = some l)
    (h : FindsSame owner f name s) :
    ∃ g, (s.editEntries owner f).loader? asked = some (l.mapEntries g) ∧
      (s.classPathOf (g l.entries)).find s.files name =
        (s.classPathOf l.entries).find s.files name := by
  by_cases howner : asked = owner
  · subst howner
    exact ⟨f, by rw [editEntries, loader?_updateLoader_self, here, Option.map_some], h l here⟩
  · refine ⟨id, ?_, rfl⟩
    rw [editEntries, loader?_updateLoader_of_ne s _ howner, here]
    cases l <;> rfl

theorem tableOf_editEntries (s : Session) (asked : LoaderId) :
    (s.editEntries owner f).tableOf asked = s.tableOf asked :=
  tableOf_updateLoader s owner asked fun l => l.table_mapEntries f

/-! ### Searches -/

theorem loadFromHost_editEntries {host : HostLoader} {entries : List EntryId}
    (hfind : (s.classPathOf entries).find s.files name =
      (s.classPathOf host.entries).find s.files name) :
    loadFromHost asked { host with entries := entries } name (s.editEntries owner f) =
      Prod.map id (editEntries owner f) (loadFromHost asked host name s) := by
  have hfind' : ((s.editEntries owner f).classPathOf entries).find
      (s.editEntries owner f).files name =
      (s.classPathOf host.entries).find s.files name := hfind
  have hnext : (s.editEntries owner f).nextHandle = s.nextHandle := rfl
  simp only [loadFromHost, hfind', hnext]
  cases host.table.find? name with
  | some c => rfl
  | none =>
    rcases (s.classPathOf host.entries).find s.files name with e | _ | file
    · rfl
    · rfl
    · by_cases hname : file.name = name
      · simp only [hname, if_true, Prod.map_apply, id_eq, enter_editEntries]
      · simp only [hname, if_false, Prod.map_apply, id_eq]

theorem defineOwned_editEntries (loader : SelectiveLoader) (entries : List EntryId)
    (event : LoadEvent) (file : ClassFile) :
    defineOwned asked { loader with entries := entries } name event file (s.editEntries owner f) =
      Prod.map id (editEntries owner f) (defineOwned asked loader name event file s) := by
  have hnext : (s.editEntries owner f).nextHandle = s.nextHandle := rfl
  rw [defineOwned, defineOwned, defineInTable, defineInTable, tableOf_editEntries, hnext]
  cases (Definition.whole name file.bytes loader.domain).classIn (s.tableOf asked) asked
    ⟨s.nextHandle⟩ with
  | error e => rfl
  | ok c =>
    refine Prod.ext rfl ?_
    simp only [Prod.map_apply, enter_editEntries, count_editEntries]

theorem loadOwned_editEntries {loader : SelectiveLoader} {entries : List EntryId}
    (hfind : (s.classPathOf entries).find s.files name =
      (s.classPathOf loader.entries).find s.files name) (modify : Bool) :
    loadOwned asked { loader with entries := entries } modify name (s.editEntries owner f) =
      Prod.map id (editEntries owner f) (loadOwned asked loader modify name s) := by
  have hfind' : ((s.editEntries owner f).classPathOf entries).find
      (s.editEntries owner f).files name =
      (s.classPathOf loader.entries).find s.files name := hfind
  rw [loadOwned, loadOwned, hfind']
  split
  · rfl
  · exact Prod.ext rfl (count_editEntries s asked .notFound)
  · next file _ =>
    split
    · rw [transform, transform]
      rcases loader.chain.apply file ⟨name, asked, loader.suppressStatic.matchAny name⟩
        with ⟨visits, _ | made⟩
      · rfl
      · exact defineOwned_editEntries (s := { s with visits := s.visits ++ visits }) loader entries
          .transformed made
    · exact defineOwned_editEntries loader entries .unmodified file

theorem findSelective_editEntries {ask : Asking} {loader : SelectiveLoader} {entries : List EntryId}
    (hask : Overlooks owner f name ask) (h : FindsSame owner f name s)
    (hfind : (s.classPathOf entries).find s.files name =
      (s.classPathOf loader.entries).find s.files name) :
    findSelective ask asked { loader with entries := entries } name (s.editEntries owner f) =
      Prod.map id (editEntries owner f) (findSelective ask asked loader name s) := by
  -- the loader with other entries is the same one otherwise
  generalize htwin : ({ loader with entries := entries } : SelectiveLoader) = twin
  have hinterceptors : twin.interceptors = loader.interceptors := by rw [← htwin]
  have hpolicy : twin.policy = loader.policy := by rw [← htwin]
  have hdeferred : twin.deferred = loader.deferred := by rw [← htwin]
  cases hfirst : loader.interceptors.find? (·.claims name) with
  | some first =>
    have hfirst' : twin.interceptors.find? (·.claims name) = some first := by rwa [hinterceptors]
    rw [findSelective_of_claim hfirst, findSelective_of_claim hfirst']
    cases first with
    | route route =>
      simp only [answerClaim, hask _ s h]
      exact Prod.ext rfl (count_editEntries _ asked .intercepted)
    | refuse _ _ => exact Prod.ext rfl (count_editEntries s asked .intercepted)
  | none =>
    have hfirst' : twin.interceptors.find? (·.claims name) = none := by rwa [hinterceptors]
    by_cases hdefer : loader.policy.decide name = .defer
    · have hdefer' : twin.policy.decide name = .defer := by rwa [hpolicy]
      rw [findSelective_of_defer hfirst hdefer, findSelective_of_defer hfirst' hdefer',
        loadDeferred, loadDeferred, hdeferred, hask _ s h]
      rcases ask loader.deferred name s with ⟨e | c, t⟩
      · by_cases hmissing : e.isNotFound = true
        · simp only [Prod.map_apply, id_eq, hmissing, if_true, count_editEntries]
        · simp only [Prod.map_apply, id_eq, hmissing, Bool.false_eq_true, if_false]
      · exact Prod.ext rfl (count_editEntries t asked .deferred)
    · have hdefer' : twin.policy.decide name ≠ .defer := by rwa [hpolicy]
      rw [findSelective_of_own hfirst hdefer, findSelective_of_own hfirst' hdefer',
        hpolicy, ← htwin]
      exact loadOwned_editEntries hfind _

theorem overlooks_loadAsking {ask : Asking} (hask : Overlooks owner f name ask) :
    Overlooks owner f name (loadAsking ask) := by
  intro asked s h
  rw [loadAsking, loadAsking]
  cases here : s.loader? asked with
  | none =>
    rw [loader?_editEntries_of_none here]
    rfl
  | some l =>
    obtain ⟨g, there, hfind⟩ := exists_loader?_editEntries here h
    rw [there]
    cases l with
    | host host => exact loadFromHost_editEntries hfind
    | resources _ => rfl
    | selective loader =>
      simp only [Loader.mapEntries, loadFromSelective]
      split
      · exact Prod.ext rfl (count_editEntries s asked .cacheHit)
      · exact findSelective_editEntries hask h hfind

/-- By induction on how many loaders may ask each other in turn. -/
theorem overlooks_loadWithin (depth : Nat) : Overlooks owner f name (loadWithin depth) := by
  induction depth with
  | zero => exact fun _ _ _ => rfl
  | succ depth ih => exact overlooks_loadAsking ih

theorem length_loaders_editEntries (s : Session) :
    (s.editEntries owner f).loaders.length = s.loaders.length := List.length_modify _ _ _

theorem overlooks_load : Overlooks owner f name load := by
  intro asked s h
  rw [load, length_loaders_editEntries]
  exact overlooks_loadWithin s.loaders.length asked s h

theorem overlooks_find : Overlooks owner f name find := by
  intro asked s h
  rw [find, find, length_loaders_editEntries]
  cases here : s.loader? asked with
  | none =>
    rw [loader?_editEntries_of_none here]
    exact overlooks_load asked s h
  | some l =>
    obtain ⟨g, there, hfind⟩ := exists_loader?_editEntries here h
    rw [there]
    cases l with
    | host _ => exact overlooks_load asked s h
    | resources _ => exact overlooks_load asked s h
    | selective loader => exact findSelective_editEntries (overlooks_loadWithin _) h hfind

/-! ### Runs of requests for one name -/

theorem FindsSame.congr {t : Session} (h : FindsSame owner f name s) (hfiles : t.files = s.files)
    (hholdings : t.holdings = s.holdings)
    (hsetup : (t.loader? owner).map Loader.setup = (s.loader? owner).map Loader.setup) :
    FindsSame owner f name t := by
  intro l' there
  rw [there] at hsetup
  obtain ⟨l, here, heq⟩ := Option.map_eq_some_iff.mp hsetup.symm
  have hentries : l.entries = l'.entries := by
    rw [← l.entries_setup, heq, l'.entries_setup]
  have hclassPath : ∀ entries, t.classPathOf entries = s.classPathOf entries := by
    have hentryAt : t.entryAt? = s.entryAt? := funext fun _ => by rw [entryAt?, entryAt?, hholdings]
    exact fun _ => by rw [classPathOf, classPathOf, hentryAt]
  rw [hclassPath, hclassPath, hfiles, ← hentries]
  exact h l here

/-- Where other entries find the same under a name, requests for it are answered as before, and
leave the loaders as they would have, but for the entries. By induction on the requests. -/
theorem run_editEntries (h : FindsSame owner f name s) {requests : List Request}
    (hseeks : ∀ r ∈ requests, r.seeks = true ∧ r.name = name) :
    run (requests.map .request) (s.editEntries owner f) =
      Prod.map id (editEntries owner f) (run (requests.map .request) s) := by
  induction requests generalizing s with
  | nil => rfl
  | cons request rest ih =>
    obtain ⟨⟨hseek, rfl⟩, hrest⟩ := List.forall_mem_cons.mp hseeks
    have hperform : request.perform (s.editEntries owner f) =
        Prod.map id (editEntries owner f) (request.perform s) := by
      cases request with
      | load asked _ => exact overlooks_load asked s h
      | find asked _ => exact overlooks_find asked s h
      | define _ _ => cases hseek
    have hsearch := searches_perform hseek s
    have hkept : FindsSame owner f request.name (request.perform s).2 :=
      h.congr hsearch.files hsearch.holdings (hsearch.map_setup_eq owner)
    simp only [List.map_cons, run, hperform, Prod.map_fst, Prod.map_snd, id_eq, ih hkept hrest]
    rfl

/-! ### Directories that do not hold the class -/

variable {l : Loader} {entry : EntryId} {root : String} {before behind : List EntryId}
  {fault : FileFault}

theorem entries_classPathOf_append (s : Session) (before behind : List EntryId) :
    (s.classPathOf (before ++ behind)).entries =
      (s.classPathOf before).entries ++ (s.classPathOf behind).entries :=
  List.filterMap_append

theorem entries_classPathOf_cons {e : Entry} (held : s.entryAt? entry = some e)
    (behind : List EntryId) :
    (s.classPathOf (entry :: behind)).entries = e :: (s.classPathOf behind).entries :=
  List.filterMap_cons_some held

/-- What becomes of a class path, and of the loader whose it is, where a directory is put into it
that has nothing at the path of a class. -/
theorem directory_without_class (here : s.loader? owner = some l)
    (hentries : l.entries = before ++ behind)
    (held : s.entryAt? entry = some ⟨entry, .directory root⟩)
    (hnothing : s.files.resolve (Path.join root (ClassName.resourcePath name)) = .error fault) :
    let shorter := s.classPathOf (before ++ behind)
    let longer := s.classPathOf (before ++ entry :: behind)
    let asked := ClassPath.findBytes s.files name (s.classPathOf before).entries = .ok none
    longer.contains s.files name = shorter.contains s.files name ∧
      (s.files.Denies root name ∨ ¬ asked →
        longer.find s.files name = shorter.find s.files name ∧
        longer.get s.files name = shorter.get s.files name ∧
        ∀ requests : List Request, (∀ r ∈ requests, r.seeks = true ∧ r.name = name) →
          (run (requests.map .request)
            (s.editEntries owner fun _ => before ++ entry :: behind)).1 =
              (run (requests.map .request) s).1) ∧
      (¬ s.files.Denies root name → fault ≠ .notFound ∧
        (asked → longer.find s.files name = .error (.file fault) ∧
          longer.get s.files name = .error (.file fault))) ∧
      ∀ place, s.files.resolve root = .ok place → s.files.node? place ≠ some .directory →
        root.toList.getLast? ≠ some '/' →
        (Holding.isFileable name && Path.isDownward (ClassName.resourcePath name)) = true →
        ¬ s.files.Denies root name := by
  intro shorter longer asked
  have hshorter : shorter =
      ⟨(s.classPathOf before).entries ++ (s.classPathOf behind).entries⟩ :=
    congrArg ClassPath.mk (entries_classPathOf_append s before behind)
  have hlonger : longer = ⟨(s.classPathOf before).entries ++
      ⟨entry, .directory root⟩ :: (s.classPathOf behind).entries⟩ := by
    rw [← entries_classPathOf_cons held, ← entries_classPathOf_append]
  refine ⟨?_, fun hspared => ?_, fun hdenies => ⟨?_, fun hasked => ?_⟩,
    fun _ => FileTree.not_denies_of_outside⟩
  · rw [hlonger, hshorter]
    exact ClassPath.contains_insert_directory hnothing
  · have hfind : longer.find s.files name = shorter.find s.files name := by
      rw [hlonger, hshorter]
      exact ClassPath.find_congr (ClassPath.findBytes_insert_directory hspared)
    refine ⟨hfind, by rw [ClassPath.get, ClassPath.get, hfind], fun requests hseeks => ?_⟩
    have hsame : FindsSame owner (fun _ => before ++ entry :: behind) name s := by
      intro l' here'
      obtain rfl := Option.some.inj (here.symm.trans here')
      rw [hentries]
      exact hfind
    rw [run_editEntries hsame hseeks]
    rfl
  · exact FileTree.ne_notFound_of_not_denies hnothing hdenies
  · have hfind : longer.find s.files name = .error (.file fault) := by
      rw [hlonger]
      exact ClassPath.find_insert_directory_of_not_denies hnothing hdenies hasked
    exact ⟨hfind, by rw [ClassPath.get, hfind]⟩

/-- A host has the class `A`, and there is an entry for a directory that does not exist. -/
def besideNothing : List Operation :=
  [.change (.addEntry (.single "A" (Stub.encode { name := "A" }))),
    .change (.addEntry (.directory "classes")),
    .change (.addHost [⟨0⟩])]

/-- With that entry in front the host still loads the class as before. -/
theorem directory_without_class_besideNothing :
    let s := (run besideNothing (start .empty)).2
    (s.classPathOf [⟨1⟩, ⟨0⟩]).find s.files "A" = (s.classPathOf [⟨0⟩]).find s.files "A" ∧
      (run [.request (.load ⟨1⟩ "A")] (s.editEntries ⟨1⟩ fun _ => [⟨1⟩, ⟨0⟩])).1 =
        (run [.request (.load ⟨1⟩ "A")] s).1 := by
  intro s
  have hscene : ∃ l, s.loader? ⟨1⟩ = some l ∧ l.entries = [] ++ [⟨0⟩] ∧
      s.entryAt? ⟨1⟩ = some ⟨⟨1⟩, .directory "classes"⟩ := ⟨_, rfl, rfl, rfl⟩
  obtain ⟨l, here, hentries, held⟩ := hscene
  have hnothing : s.files.resolve (Path.join "classes" (ClassName.resourcePath "A")) =
      .error .notFound := by decide +kernel
  obtain ⟨-, hspared, -, -⟩ := directory_without_class here hentries held hnothing
  obtain ⟨hfind, -, hrun⟩ := hspared (.inl (.inr (FileTree.resolve_eq_notFound_iff.mp hnothing)))
  exact ⟨hfind, hrun [.load ⟨1⟩ "A"] (by decide)⟩

/-- An entry for a directory where there is a file makes a class unfindable that lies behind it. -/
theorem find_behind_file :
    let tree := FileTree.empty.writeFile "lib.jar" [0x50, 0x4b]
    let held : Entry := ⟨⟨0⟩, .single "A" (Stub.encode { name := "A" })⟩
    let jar : Entry := ⟨⟨1⟩, .directory "lib.jar"⟩
    tree.resolve (Path.join "lib.jar" (ClassName.resourcePath "A")) = .error .notDirectory ∧
      (∃ file, ClassPath.find tree ⟨[held]⟩ "A" = .ok (some file)) ∧
      ClassPath.find tree ⟨[jar, held]⟩ "A" = .error (.file .notDirectory) := by
  intro tree held jar
  have hfound : ((ClassPath.find tree ⟨[held]⟩ "A").toOption.bind id).isSome = true := by
    decide +kernel
  refine ⟨by decide +kernel, ?_, by decide +kernel⟩
  rcases hfind : ClassPath.find tree ⟨[held]⟩ "A" with e | _ | file
  · rw [hfind] at hfound
    cases hfound
  · rw [hfind] at hfound
    cases hfound
  · exact ⟨file, rfl⟩

end Session

end Understudy
