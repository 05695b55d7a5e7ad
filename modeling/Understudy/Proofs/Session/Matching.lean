import Understudy.Proofs.Session.Mirror
import Understudy.Proofs.Session.Resources

/-!
What a loader does in two sessions that it cannot tell apart. Asked for the same, it answers the
same classes in both of them, up to their identities, and it cannot tell the sessions apart
afterwards. Entries that there were keep their names, so the answer is still the same when others
are named later. Main statement: `Mirrors.right`.
-/

namespace Understudy

namespace Session

variable {scene : Scene} {ρ σ : Equiv.Perm EntryId} {s t s' t' : Session} {name : String}

/-! ### Loads -/

/-- The same outcome in both sessions, up to the identities of classes. -/
structure Matches (scene : Scene) (ρ : Equiv.Perm EntryId) (o o' : Outcome DefinedClass) :
    Prop where
  answer : o.1.map DefinedClass.content = o'.1.map DefinedClass.content
  mirrors : Mirrors scene ρ o.2 o'.2

/-- The host answers the right loader the same in both sessions, whatever the left one has had it
load before. -/
theorem Mirrors.load_host (h : Mirrors scene ρ s t) (name : String) :
    Matches scene ρ (load scene.host name s) (load scene.host name t) where
  answer := (h.serves.load_eq name).trans (h.serves'.load_eq name).symm
  mirrors := by
    obtain ⟨_, here, -⟩ := h.serves
    obtain ⟨_, there, -⟩ := h.serves'
    have hs : ¬ Reaches s name scene.host scene.right := fun hreach =>
      scene.right_ne_host (Reaches.eq_of_host here hreach)
    have ht : ¬ Reaches t name scene.host scene.right := fun hreach =>
      scene.right_ne_host (Reaches.eq_of_host there hreach)
    exact (h.searched (searches_load scene.host name s) hs).searched'
      (searches_load scene.host name t) ht

variable {loader twin : SelectiveLoader}

theorem Mirrors.defineInTable (h : Mirrors scene ρ s t) (d : Definition) :
    Matches scene ρ (defineInTable scene.right d s) (defineInTable scene.right d t) := by
  obtain ⟨loader, twin, here, there, htwins⟩ := h.twins
  have hclass : (d.classIn (s.tableOf scene.right) scene.right ⟨s.nextHandle⟩).map
      DefinedClass.content = (d.classIn (t.tableOf scene.right) scene.right ⟨t.nextHandle⟩).map
        DefinedClass.content := by
    rw [tableOf_of_selective here, tableOf_of_selective there]
    exact Definition.map_content_classIn_congr d (htwins.table d.name) scene.right _ _
  rw [Session.defineInTable, Session.defineInTable]
  rcases DefinedClass.cases_of_map_content_eq hclass with ⟨e, hx, hy⟩ | ⟨c, c', hx, hy, hcontent⟩
  · rw [hx, hy]
    exact ⟨rfl, h⟩
  · rw [hx, hy]
    have hloader : c.loader = scene.right := by rw [(Definition.classIn_eq_ok hx).1]
    exact ⟨congrArg Except.ok hcontent, h.enter hcontent hloader⟩

theorem Mirrors.defineOwned (h : Mirrors scene ρ s t)
    (hdomain : loader.domain = twin.domain) (event : LoadEvent) (file : ClassFile) :
    Matches scene ρ (defineOwned scene.right loader name event file s)
      (defineOwned scene.right twin name event file t) := by
  have htable := h.defineInTable (.whole name file.bytes twin.domain)
  rw [Session.defineOwned, Session.defineOwned, hdomain]
  rcases hx : Session.defineInTable scene.right (.whole name file.bytes twin.domain) s with ⟨x, s'⟩
  rcases hy : Session.defineInTable scene.right (.whole name file.bytes twin.domain) t with ⟨y, t'⟩
  rw [hx, hy] at htable
  rcases DefinedClass.cases_of_map_content_eq htable.answer with
    ⟨e, rfl, rfl⟩ | ⟨c, d, rfl, rfl, hcontent⟩
  · exact htable
  · exact ⟨htable.answer, htable.mirrors.count event⟩

/-- The right loader takes a class on itself alike, if it finds the same on its class path. -/
theorem Mirrors.loadOwned (h : Mirrors scene ρ s t)
    (htwins : Twins scene.host t.holdings.length ρ loader twin)
    (hfound : (s.classPathOf loader.entries).find s.files name =
      (t.classPathOf twin.entries).find t.files name) (modify : Bool) :
    Matches scene ρ (loadOwned scene.right loader modify name s)
      (loadOwned scene.right twin modify name t) := by
  rcases hfind : (t.classPathOf twin.entries).find t.files name with e | _ | file <;>
    rw [hfind] at hfound
  · simp only [Session.loadOwned, hfind, hfound]
    exact ⟨rfl, h⟩
  · simp only [Session.loadOwned, hfind, hfound]
    exact ⟨rfl, h.count .notFound⟩
  · cases modify with
    | false =>
      simp only [Session.loadOwned, hfind, hfound]
      exact h.defineOwned htwins.domain .unmodified file
    | true =>
      rw [loadOwned_of_find hfind, loadOwned_of_find hfound, htwins.chain, htwins.suppressStatic]
      have hvisits := fun visits visits' => h.with s.nextHandle t.nextHandle visits visits'
      rcases (twin.chain.apply file ⟨name, scene.right, twin.suppressStatic.matchAny name⟩).2 with
        e | changed
      · exact ⟨rfl, hvisits _ _⟩
      · exact (hvisits _ _).defineOwned htwins.domain .transformed changed

theorem Matches.loadDeferred {ask ask' : Asking}
    (hask : Matches scene ρ (ask scene.host name s) (ask' scene.host name t))
    (htwins : Twins scene.host t.holdings.length ρ loader twin) :
    Matches scene ρ (loadDeferred ask scene.right loader name s)
      (loadDeferred ask' scene.right twin name t) := by
  rw [Session.loadDeferred, Session.loadDeferred, htwins.deferred, htwins.target]
  rcases hx : ask scene.host name s with ⟨x, s'⟩
  rcases hy : ask' scene.host name t with ⟨y, t'⟩
  rw [hx, hy] at hask
  rcases DefinedClass.cases_of_map_content_eq hask.answer with
    ⟨e, rfl, rfl⟩ | ⟨c, d, rfl, rfl, hcontent⟩
  · refine ⟨rfl, ?_⟩
    change Mirrors scene ρ (if e.isNotFound then s'.count scene.right .notFound else s')
      (if e.isNotFound then t'.count scene.right .notFound else t')
    split
    · exact hask.mirrors.count .notFound
    · exact hask.mirrors
  · exact ⟨hask.answer, hask.mirrors.count .deferred⟩

/-- A name that the right loader has not defined is looked for alike. -/
theorem Mirrors.findSelective (h : Mirrors scene ρ s t) (hapart : Apart scene s)
    (here : s.loader? scene.right = some (.selective loader))
    (htwins : Twins scene.host t.holdings.length ρ loader twin) {ask ask' : Asking}
    (hask : Matches scene ρ (ask scene.host name s) (ask' scene.host name t)) :
    Matches scene ρ (findSelective ask scene.right loader name s)
      (findSelective ask' scene.right twin name t) := by
  cases hfirst : twin.interceptors.find? (·.claims name) with
  | some first =>
    have hfirst' : loader.interceptors.find? (·.claims name) = some first := by
      rw [htwins.interceptors, hfirst]
    obtain ⟨leads, rfl⟩ := htwins.routes first (List.mem_of_find?_eq_some hfirst)
    rw [findSelective_of_claim hfirst, findSelective_of_claim hfirst']
    exact ⟨hask.answer, hask.mirrors.count .intercepted⟩
  | none =>
    have hfirst' : loader.interceptors.find? (·.claims name) = none := by
      rw [htwins.interceptors, hfirst]
    have hpolicy := htwins.policy
    by_cases hdefer : twin.policy.decide name = .defer
    · rw [findSelective_of_defer hfirst hdefer,
        findSelective_of_defer hfirst' (by rw [hpolicy, hdefer])]
      exact hask.loadDeferred htwins
    · rw [findSelective_of_own hfirst hdefer,
        findSelective_of_own hfirst' (by rw [hpolicy]; exact hdefer), hpolicy]
      refine h.loadOwned htwins ?_ _
      rw [h.classPathOf_own hapart here htwins, ClassPath.find_rename, h.files]

theorem Mirrors.load (h : Mirrors scene ρ s t) (hapart : Apart scene s) (name : String) :
    Matches scene ρ (load scene.right name s) (load scene.right name t) := by
  obtain ⟨loader, twin, here, there, htwins⟩ := h.twins
  obtain ⟨_, hhost, -⟩ := h.serves
  obtain ⟨_, hhost', -⟩ := h.serves'
  have honly : twin.AsksOnly scene.host := ⟨htwins.target, htwins.routes⟩
  have honly' : loader.AsksOnly scene.host :=
    ⟨htwins.deferred.trans htwins.target, by rw [htwins.interceptors]; exact htwins.routes⟩
  have hends : Ends s name scene.right := .of_above hhost ⟨loader, here, honly'⟩
  have hends' : Ends t name scene.right := .of_above hhost' ⟨twin, there, honly⟩
  rw [load_eq_loadAsking hends, load_eq_loadAsking hends', loadAsking, loadAsking, here, there]
  simp only [loadFromSelective]
  have htable := htwins.table name
  rcases hfound : twin.table.find? name with _ | d <;>
    rcases hfound' : loader.table.find? name with _ | c <;>
      simp only [hfound, hfound', Option.map_none, Option.map_some, reduceCtorEq,
        Option.some.injEq] at htable
  · exact h.findSelective hapart here htwins (h.load_host name)
  · exact ⟨congrArg Except.ok htable, h.count .cacheHit⟩

theorem Mirrors.find (h : Mirrors scene ρ s t) (hapart : Apart scene s) (name : String) :
    Matches scene ρ (find scene.right name s) (find scene.right name t) := by
  obtain ⟨loader, twin, here, there, htwins⟩ := h.twins
  rw [Session.find, Session.find, here, there]
  exact h.findSelective hapart here htwins (h.load_host name)

/-! ### Entries -/

/-- Two renamings agree on the identities given out so far. -/
def SameBelow (count : Nat) (ρ σ : Equiv.Perm EntryId) : Prop :=
  ∀ entry : EntryId, entry.value < count → σ entry = ρ entry

/-- The identity that the next entry gets in the second session can be renamed to the one that it
gets in the first one. -/
theorem Mirrors.exists_renaming (h : Mirrors scene ρ s t) :
    ∃ σ, SameBelow t.holdings.length ρ σ ∧ σ ⟨t.holdings.length⟩ = ⟨s.holdings.length⟩ := by
  refine ⟨ρ.trans (Equiv.swap (ρ ⟨t.holdings.length⟩) ⟨s.holdings.length⟩), fun entry hlt => ?_, ?_⟩
  · refine Equiv.swap_apply_of_ne_of_ne (fun heq => ?_) fun heq => ?_
    · rw [ρ.injective heq] at hlt
      exact Nat.lt_irrefl _ hlt
    · have hwithin := h.within entry hlt
      rw [heq] at hwithin
      exact Nat.lt_irrefl _ hwithin
  · exact Equiv.swap_apply_left _ _

theorem Mirrors.entriesOf_right (h : Mirrors scene ρ s t) :
    s.entriesOf scene.right = (t.entriesOf scene.right).map ρ ∧
      ∀ entry ∈ t.entriesOf scene.right, entry.value < t.holdings.length := by
  obtain ⟨loader, twin, here, there, htwins⟩ := h.twins
  rw [entriesOf, entriesOf, here, there]
  exact ⟨htwins.entries, htwins.held⟩

/-- The right loader gets a new entry. -/
theorem Mirrors.append_fresh (h : Mirrors scene ρ s t) (holding : Holding) :
    ∃ σ, SameBelow t.holdings.length ρ σ ∧
      Mirrors scene σ (s.append scene.right (.fresh holding))
        (t.append scene.right (.fresh holding)) := by
  obtain ⟨σ, hσ, hnew⟩ := h.exists_renaming
  refine ⟨σ, hσ, ?_⟩
  have hadded := (h.congr hσ).addEntry holding hnew
  have hlt : (⟨t.holdings.length⟩ : EntryId).value < (t.addEntry holding).2.holdings.length := by
    simp [Session.addEntry]
  have happended := hadded.appendTo hlt
  rw [hnew] at happended
  exact happended

theorem Mirrors.append (h : Mirrors scene ρ s t) (addition : Addition)
    (hknown : ∀ entry, addition = .known entry → entry.value < scene.known) :
    ∃ σ, SameBelow t.holdings.length ρ σ ∧
      Mirrors scene σ (s.append scene.right addition) (t.append scene.right addition) := by
  cases addition with
  | fresh holding => exact h.append_fresh holding
  | known entry =>
    have hlt := hknown entry rfl
    have happended := h.appendTo (Nat.lt_of_lt_of_le hlt h.known)
    rw [h.fixed entry hlt] at happended
    exact ⟨ρ, fun _ _ => rfl, happended⟩
  | again position =>
    refine ⟨ρ, fun _ _ => rfl, ?_⟩
    obtain ⟨hentries, hheld⟩ := h.entriesOf_right
    simp only [Session.append, hentries, List.getElem?_map]
    rcases hentry : (t.entriesOf scene.right)[position]? with _ | entry
    · exact h
    · exact h.appendTo (hheld entry (List.mem_of_getElem? hentry))

theorem Mirrors.updateOwn (h : Mirrors scene ρ s t) (position : Nat) (f : Holding → Holding)
    (hshared : ∀ entry ∈ scene.shared,
      (s.updateOwn scene.right position f).entryAt? entry = s.entryAt? entry) :
    Mirrors scene ρ (s.updateOwn scene.right position f)
      (t.updateOwn scene.right position f) := by
  obtain ⟨hentries, -⟩ := h.entriesOf_right
  simp only [Session.updateOwn, hentries, List.getElem?_map] at hshared ⊢
  rcases hentry : (t.entriesOf scene.right)[position]? with _ | entry
  · exact h
  · rw [hentry] at hshared
    exact h.updateEntry entry f hshared

/-- A class is defined directly, and its bytes are kept in a new entry. -/
theorem Mirrors.define (h : Mirrors scene ρ s t) (d : Definition) :
    ∃ σ, SameBelow t.holdings.length ρ σ ∧
      Matches scene σ (define scene.right d s) (define scene.right d t) := by
  obtain ⟨_, _, here, there, -⟩ := h.twins
  have htable := h.defineInTable d
  rw [Session.define, Session.define, here, there]
  simp only
  rcases hx : Session.defineInTable scene.right d s with ⟨x, s'⟩
  rcases hy : Session.defineInTable scene.right d t with ⟨y, t'⟩
  rw [hx, hy] at htable
  rcases DefinedClass.cases_of_map_content_eq htable.answer with
    ⟨e, rfl, rfl⟩ | ⟨c, c', rfl, rfl, hcontent⟩
  · exact ⟨ρ, fun _ _ => rfl, htable⟩
  · have hfile : c.file = c'.file := congrArg (·.2.2) hcontent
    have hcount : t'.holdings.length = t.holdings.length := by
      rw [Session.defineInTable] at hy
      split at hy
      · cases hy
      · obtain ⟨-, rfl⟩ := Prod.mk.inj hy
        rfl
    obtain ⟨σ, hσ, hkept⟩ := htable.mirrors.append_fresh (.single c'.file.name c'.file.bytes)
    rw [hcount] at hσ
    refine ⟨σ, hσ, htable.answer, ?_⟩
    simp only [keepBytes, hfile]
    exact hkept

/-! ### Resources -/

theorem Mirrors.resources (h : Mirrors scene ρ s t) (hapart : Apart scene s) (path : String) :
    s.resources scene.right path =
      (t.resources scene.right path).map (Resource.rename ρ) := by
  obtain ⟨loader, twin, here, there, htwins⟩ := h.twins
  obtain ⟨_, hhost, -⟩ := h.serves
  obtain ⟨_, hhost', -⟩ := h.serves'
  have hbelow : OverHost s loader.deferred := by
    rw [htwins.deferred, htwins.target]
    exact .host hhost
  have hbelow' : OverHost t twin.deferred := by
    rw [htwins.target]
    exact .host hhost'
  rw [resources_of_selective here hbelow, resources_of_selective there hbelow', htwins.deferred,
    htwins.target, resources_of_host hhost, resources_of_host hhost',
    h.classPathOf_own hapart here htwins, h.classPathOf_shared, h.files,
    ClassPath.resources_rename, ClassPath.resources_rename, ← List.map_append,
    Resource.firsts_map_rename ρ.injective]

theorem Mirrors.resource (h : Mirrors scene ρ s t) (hapart : Apart scene s) (path : String) :
    s.resource scene.right path =
      (t.resource scene.right path).map (Resource.rename ρ) := by
  obtain ⟨loader, twin, here, there, htwins⟩ := h.twins
  obtain ⟨_, hhost, -⟩ := h.serves
  obtain ⟨_, hhost', -⟩ := h.serves'
  have hover : OverHost s scene.right := .selective here (by
    rw [htwins.deferred, htwins.target]
    exact .host hhost)
  have hover' : OverHost t scene.right := .selective there (by
    rw [htwins.target]
    exact .host hhost')
  rw [hover.resource_eq, hover'.resource_eq, h.resources hapart, List.head?_map]

/-! ### What else there is to tell -/

theorem Mirrors.classPathOf_right (h : Mirrors scene ρ s t) (hapart : Apart scene s) :
    s.classPathOf (s.entriesOf scene.right) =
      (t.classPathOf (t.entriesOf scene.right)).rename ρ := by
  obtain ⟨loader, twin, here, there, htwins⟩ := h.twins
  have hown := h.classPathOf_own hapart here htwins
  rw [entriesOf, entriesOf, here, there]
  exact hown

theorem Mirrors.stats (h : Mirrors scene ρ s t) :
    (s.loader? scene.right).map (·.stats) = (t.loader? scene.right).map (·.stats) := by
  obtain ⟨loader, twin, here, there, htwins⟩ := h.twins
  rw [here, there]
  exact congrArg some htwins.stats

theorem Mirrors.isDefined (h : Mirrors scene ρ s t) (name : String) :
    s.isDefined scene.right name = t.isDefined scene.right name := by
  obtain ⟨loader, twin, here, there, htwins⟩ := h.twins
  rw [Session.isDefined, Session.isDefined, tableOf_of_selective here, tableOf_of_selective there]
  simpa only [Keyed.has, Option.isSome_map] using congrArg Option.isSome (htwins.table name)

end Session

/-! ### Acts -/

/-- The same answer where entries have other identities, up to the identities of classes. -/
inductive Act.Answer.Like (f : EntryId → EntryId) : Act.Answer → Act.Answer → Prop
  | done : Like f .done .done
  | told (answer : Bool) : Like f (.told answer) (.told answer)
  | loaded {answer answer' : Except Error DefinedClass}
    (same : answer.map DefinedClass.content = answer'.map DefinedClass.content) :
    Like f (.loaded answer) (.loaded answer')
  | made (answer : Except Error ClassFile) : Like f (.made answer) (.made answer)
  | location (answer : Option Resource) :
    Like f (.location (answer.map (Resource.rename f))) (.location answer)
  | locations (answer : List Resource) :
    Like f (.locations (answer.map (Resource.rename f))) (.locations answer)

namespace Session

/-- Whatever the right loader is used for comes to the same in both sessions, and it cannot tell
them apart afterwards. -/
theorem Mirrors.right (h : Mirrors scene ρ s t) (hapart : Apart scene s) (act : Act)
    (hknown : ∀ entry, act = .append (.known entry) → entry.value < scene.known)
    (hshared : ∀ entry ∈ scene.shared,
      (act.perform scene.right s).2.entryAt? entry = s.entryAt? entry) :
    ∃ σ, SameBelow t.holdings.length ρ σ ∧
      Mirrors scene σ (act.perform scene.right s).2 (act.perform scene.right t).2 ∧
        ∀ τ, SameBelow t.holdings.length ρ τ →
          Act.Answer.Like τ (act.perform scene.right s).1 (act.perform scene.right t).1 := by
  have hrefl : SameBelow t.holdings.length ρ ρ := fun _ _ => rfl
  cases act with
  | load name =>
    have hmatches := h.load hapart name
    exact ⟨ρ, hrefl, hmatches.mirrors, fun _ _ => .loaded hmatches.answer⟩
  | find name =>
    have hmatches := h.find hapart name
    exact ⟨ρ, hrefl, hmatches.mirrors, fun _ _ => .loaded hmatches.answer⟩
  | define d =>
    obtain ⟨σ, hσ, hmatches⟩ := h.define d
    exact ⟨σ, hσ, hmatches.mirrors, fun _ _ => .loaded hmatches.answer⟩
  | isDefined name =>
    refine ⟨ρ, hrefl, h, fun _ _ => ?_⟩
    simp only [Act.perform, h.isDefined name]
    exact .told _
  | resource path =>
    refine ⟨ρ, hrefl, h, fun τ hτ => ?_⟩
    simp only [Act.perform, (h.congr hτ).resource hapart path]
    exact .location _
  | resources path =>
    refine ⟨ρ, hrefl, h, fun τ hτ => ?_⟩
    simp only [Act.perform, (h.congr hτ).resources hapart path]
    exact .locations _
  | addIgnores patterns => exact ⟨ρ, hrefl, h.addIgnores patterns, fun _ _ => .done⟩
  | append addition =>
    obtain ⟨σ, hσ, happended⟩ := h.append addition fun entry heq => hknown entry (by rw [heq])
    exact ⟨σ, hσ, happended, fun _ _ => .done⟩
  | synthesize name =>
    obtain ⟨σ, hσ, happended⟩ := h.append_fresh (.single name (Stub.encode { name := name }))
    exact ⟨σ, hσ, happended, fun _ _ => .made _⟩
  | insertClass position name bytes =>
    exact ⟨ρ, hrefl, h.updateOwn position _ hshared, fun _ _ => .done⟩
  | insertResource position path bytes =>
    exact ⟨ρ, hrefl, h.updateOwn position _ hshared, fun _ _ => .done⟩

end Session

end Understudy
