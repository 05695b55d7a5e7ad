import Understudy.Proofs.Session.Answers

/-!
Hosts as others see them. What a host has defined was found on its class path, so whether it has
been asked before makes no difference to what it answers but in the identities of classes. Loaders
that ask nobody but a host leave all loaders alone but themselves and the host. Main statements:
`Serves.searches` and `loader_of_load`.
-/

namespace Understudy

/-- What a host answers for a name, apart from the identities of classes: `found` is what its class
path finds. -/
def HostLoader.content (table : ClassTable) (id : LoaderId) (name : String)
    (found : Except Error (Option ClassFile)) : Except Error DefinedClass.Content :=
  match table.find? name with
  | some c => .ok c.content
  | none =>
    match found with
    | .error e => .error e
    | .ok none => .error (.classNotFound name)
    | .ok (some file) =>
      if file.name = name then .ok (id, {}, file) else .error (.classNameMismatch name file.name)

/-- The loader asks nobody but a host: it defers there, and all its interceptors route there. -/
structure SelectiveLoader.AsksOnly (host : LoaderId) (loader : SelectiveLoader) : Prop where
  deferred : loader.deferred = host
  interceptors : ∀ interceptor ∈ loader.interceptors, ∃ leads, interceptor = .route ⟨leads, host⟩

namespace Session

variable {s t : Session} {id h : LoaderId} {name : String}

theorem load_of_host {host : HostLoader} (here : s.loader? id = some (.host host)) :
    load id name s = loadFromHost id host name s := by
  rw [load_eq_loadAsking (.of_host here), loadAsking, here]

theorem content_load_of_host {host : HostLoader} (here : s.loader? id = some (.host host)) :
    (load id name s).1.map DefinedClass.content =
      HostLoader.content host.table id name ((s.classPathOf host.entries).find s.files name) := by
  rw [load_of_host here]
  unfold loadFromHost HostLoader.content
  cases host.table.find? name with
  | some c => rfl
  | none =>
    rcases (s.classPathOf host.entries).find s.files name with e | _ | file
    · rfl
    · rfl
    · by_cases hname : file.name = name
      · simp [hname, Except.map, DefinedClass.content]
      · simp [hname, Except.map]

/-- A host of some entries, as it is seen by those that ask it for classes. -/
def Serves (h : LoaderId) (entries : List EntryId)
    (view : String → Except Error DefinedClass.Content) (s : Session) : Prop :=
  ∃ table, s.loader? h = some (.host ⟨entries, table⟩) ∧ ∀ name,
    HostLoader.content table h name ((s.classPathOf entries).find s.files name) = view name

variable {entries : List EntryId} {view : String → Except Error DefinedClass.Content}

theorem Serves.load_eq (hserves : Serves h entries view s) (name : String) :
    (load h name s).1.map DefinedClass.content = view name := by
  obtain ⟨table, here, hview⟩ := hserves
  rw [content_load_of_host here, hview]

theorem Serves.of_same (hserves : Serves h entries view s) (hloader : t.loader? h = s.loader? h)
    (hclassPath : t.classPathOf entries = s.classPathOf entries) (hfiles : t.files = s.files) :
    Serves h entries view t := by
  obtain ⟨table, here, hview⟩ := hserves
  exact ⟨table, hloader.trans here, by rw [hclassPath, hfiles]; exact hview⟩

/-- No step of a search changes what a host answers: a class that it enters is the one that it would
have answered anyway. -/
theorem Serves.step {among : LoaderId → Prop} {success : Bool}
    (hserves : Serves h entries view s) (step : SearchStep among name success s t) :
    Serves h entries view t := by
  obtain ⟨table, here, hview⟩ := id hserves
  cases step with
  | @counted other event _ _ =>
    refine hserves.of_same ?_ rfl rfl
    by_cases hother : h = other
    · subst hother
      rw [count, loader?_updateLoader_self, here]
      rfl
    · exact loader?_count_of_ne s event hother
  | passed _ _ _ _ _ => exact hserves.of_same rfl rfl rfl
  | @entered c _ _ _ _ _ free takes =>
    by_cases hother : h = c.loader
    · subst hother
      refine ⟨table.insert c.file.name c, ?_, fun name' => ?_⟩
      · have hself := loader?_updateLoader_self s c.loader (·.mapTable (·.insert c.file.name c))
        rw [here] at hself
        exact hself
      · rw [← hview]
        by_cases hname : c.file.name = name'
        · subst hname
          rw [tableOf_of_host here] at free
          cases takes with
          | selective there _ _ => rw [here] at there; cases there
          | host there found plain =>
            rw [here] at there
            cases there
            simp [HostLoader.content, free, found, plain, DefinedClass.content]
        · simp only [HostLoader.content, Keyed.find?_insert_of_ne _ _ hname]
          rfl
    · exact hserves.of_same (loader?_enter_of_ne s hother) rfl rfl

/-- Whether a host has been asked before makes no difference to what it answers. -/
theorem Serves.searches {among : LoaderId → Prop} {success : Bool}
    (hserves : Serves h entries view s) (hsearch : Searches among name success s t) :
    Serves h entries view t := by
  induction hsearch with
  | refl => exact hserves
  | tail _ step ih => exact ih.step step

/-! ### Loaders above a host -/

/-- A selective loader that asks nobody but a host. -/
def Above (s : Session) (h id : LoaderId) : Prop :=
  ∃ loader, s.loader? id = some (.selective loader) ∧ loader.AsksOnly h

theorem AsksFor.eq_of_above {below : LoaderId} (habove : Above s h id)
    (hasks : AsksFor s name id below) : below = h := by
  obtain ⟨loader, here, honly⟩ := habove
  cases hasks with
  | routed there first =>
    rw [here] at there
    cases there
    obtain ⟨leads, hroute⟩ := honly.interceptors _ (List.mem_of_find?_eq_some first)
    rw [Interceptor.route.inj hroute]
  | deferred there _ _ =>
    rw [here] at there
    cases there
    exact honly.deferred

theorem Reaches.eq_of_host {host : HostLoader} {below : LoaderId}
    (here : s.loader? id = some (.host host)) (hreach : Reaches s name id below) : below = id := by
  refine Reaches.eq_of_alone (fun next hasks => ?_) hreach
  obtain ⟨_, there⟩ := hasks.exists_selective
  rw [here] at there
  cases there

/-- A search from there goes to the host at most. -/
theorem Reaches.eq_or_eq_of_above {host : HostLoader} {below : LoaderId}
    (here : s.loader? h = some (.host host)) (habove : Above s h id)
    (hreach : Reaches s name id below) : below = id ∨ below = h := by
  rcases hreach.cases_head with heq | ⟨next, hasks, hrest⟩
  · exact .inl heq.symm
  · obtain rfl := hasks.eq_of_above habove
    exact .inr (Reaches.eq_of_host here hrest)

theorem Ends.of_above {host : HostLoader} (here : s.loader? h = some (.host host))
    (habove : Above s h id) : Ends s name id := by
  refine Acc.intro id fun below hturns => ?_
  rw [hturns.asks.eq_of_above habove]
  exact Ends.of_host here

/-! ### Whose class is answered -/

theorem loader_of_load_host {host : HostLoader} {c : DefinedClass} (howned : Owned s)
    (here : s.loader? id = some (.host host)) (hanswer : (load id name s).1 = .ok c) :
    c.loader = id := by
  rw [load_of_host here, loadFromHost] at hanswer
  split at hanswer
  · next hfound =>
    obtain rfl := Except.ok.inj hanswer
    exact (howned id name _ (by rw [tableOf_of_host here]; exact hfound)).2
  · split at hanswer
    · cases hanswer
    · cases hanswer
    · split at hanswer
      · obtain rfl := Except.ok.inj hanswer
        rfl
      · cases hanswer

theorem loader_of_ownAnswer {loader : SelectiveLoader} {modify : Bool}
    {found : Except Error (Option ClassFile)} {table : ClassTable} {handle : ClassHandle}
    {c : DefinedClass} (hanswer : loader.ownAnswer id modify name found table handle = .ok c) :
    c.loader = id := by
  simp only [SelectiveLoader.ownAnswer] at hanswer
  split at hanswer
  · cases hanswer
  · cases hanswer
  · split at hanswer
    · cases hanswer
    · rw [(Definition.classIn_eq_ok hanswer).1]

/-- What a selective loader answers is its own or comes from the one that it asks. -/
theorem loader_of_findSelective {ask : Asking} {loader : SelectiveLoader} {c : DefinedClass}
    (hask : ∀ d, (ask h name s).1 = .ok d → d.loader = h) (honly : loader.AsksOnly h)
    (hanswer : (findSelective ask id loader name s).1 = .ok c) : c.loader = id ∨ c.loader = h := by
  cases hfirst : loader.interceptors.find? (·.claims name) with
  | some first =>
    obtain ⟨leads, rfl⟩ := honly.interceptors first (List.mem_of_find?_eq_some hfirst)
    rw [findSelective_of_claim hfirst] at hanswer
    exact .inr (hask c hanswer)
  | none =>
    by_cases hdefer : loader.policy.decide name = .defer
    · rw [findSelective_of_defer hfirst hdefer, answer_loadDeferred, honly.deferred] at hanswer
      exact .inr (hask c hanswer)
    · rw [findSelective_of_own hfirst hdefer, answer_loadOwned] at hanswer
      exact .inl (loader_of_ownAnswer hanswer)

/-- A loader above a host answers no class but its own and the host's. -/
theorem loader_of_load {host : HostLoader} {c : DefinedClass} (howned : Owned s)
    (here : s.loader? h = some (.host host)) (habove : Above s h id)
    (hanswer : (load id name s).1 = .ok c) : c.loader = id ∨ c.loader = h := by
  have hends : Ends s name id := .of_above here habove
  obtain ⟨loader, there, honly⟩ := habove
  rw [load_eq_loadAsking hends, loadAsking, there] at hanswer
  simp only [loadFromSelective] at hanswer
  split at hanswer
  · next hfound =>
    obtain rfl := Except.ok.inj hanswer
    exact .inl (howned id name _ (by rw [tableOf_of_selective there]; exact hfound)).2
  · exact loader_of_findSelective (fun d => loader_of_load_host howned here) honly hanswer

theorem loader_of_find {host : HostLoader} {c : DefinedClass} (howned : Owned s)
    (here : s.loader? h = some (.host host)) (habove : Above s h id)
    (hanswer : (find id name s).1 = .ok c) : c.loader = id ∨ c.loader = h := by
  obtain ⟨loader, there, honly⟩ := habove
  rw [find, there] at hanswer
  have hask : ∀ d, (loadWithin s.loaders.length h name s).1 = .ok d → d.loader = h :=
    fun d => loader_of_load_host howned here
  exact loader_of_findSelective hask honly hanswer

theorem loader_of_define {d : Definition} {c : DefinedClass}
    (hanswer : (define id d s).1 = .ok c) : c.loader = id := by
  obtain ⟨-, hclass, -⟩ := define_of_ok hanswer
  rw [(Definition.classIn_eq_ok hclass).1]

end Session

end Understudy
