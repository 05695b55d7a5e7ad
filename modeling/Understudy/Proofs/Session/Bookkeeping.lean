import Understudy.Proofs.Session.Order

/-!
What a selective loader counts. A request for a class ends in one of a few ways, and each but one
counts once; what is not counted is a failure of the loader's own that is not for want of the class.
Direct definitions are not counted at all. So the counts and the table of a loader account for every
request that was made to it: the cache hits are the loads of names that it had defined, and every
name in its table was made by a search or defined directly. A request that came back to the loader
while it is at one would be counted as well, but none does in a session in order. Main statement:
`run_tallied`.
-/

namespace Understudy

/-- All that has been counted. -/
def Tally.total (stats : Tally) : Nat :=
  stats.cacheHits + stats.intercepted + stats.transformed + stats.unmodified + stats.deferred
    + stats.notFound

theorem Tally.total_count (stats : Tally) (event : LoadEvent) :
    (stats.count event).total = stats.total + 1 := by
  cases event <;> simp only [count, total] <;> omega

theorem Keyed.length_insert {α : Type} {items : Keyed α} {key : String}
    (h : items.find? key = none) (value : α) :
    List.length (items.insert key value) = List.length items + 1 := by
  have hall : ∀ item ∈ items, (item.1 != key) = true := by
    rw [find?, Option.map_eq_none_iff, List.find?_eq_none] at h
    exact fun item hitem => by simpa using h item hitem
  rw [insert, List.filter_eq_self.mpr hall, List.length_cons]

namespace Definition

theorem isNotFound_of_classFile {d : Definition} {e : Error} (h : d.classFile = .error e) :
    e.isNotFound = false := by
  rcases fault_of_classFile h with hreading | ⟨found, rfl⟩
  · exact hreading.isNotFound_eq
  · rfl

/-- Whatever is wrong with a definition, it is not that a class is missing. -/
theorem isNotFound_of_classIn {d : Definition} {table : ClassTable} {owner : LoaderId}
    {handle : ClassHandle} {e : Error} (h : d.classIn table owner handle = .error e) :
    e.isNotFound = false := by
  rw [classIn] at h
  split at h
  · next hfile =>
    cases h
    exact isNotFound_of_classFile hfile
  · split at h
    · cases h
      rfl
    · cases h

end Definition

namespace Session

variable {s t : Session} {id below : LoaderId} {name : String} {loader : SelectiveLoader}

/-! ### How a search ends -/

/-- How a search that passes over the table ends for a loader, what it answers, and what it makes of
the loader. -/
inductive EndsIn (name : String) (loader : SelectiveLoader) :
    Except Error DefinedClass → SelectiveLoader → Prop
  | claimed {first : Interceptor} {answer : Except Error DefinedClass}
    (first : loader.interceptors.find? (·.claims name) = some first) :
    EndsIn name loader answer { loader with stats := loader.stats.count .intercepted }
  | defined {c : DefinedClass} {event : LoadEvent}
    (unclaimed : loader.interceptors.find? (·.claims name) = none)
    (free : loader.table.find? name = none) (made : event = .transformed ∨ event = .unmodified) :
    EndsIn name loader (.ok c) { loader with
      table := loader.table.insert name c
      stats := loader.stats.count event }
  | deferred {c : DefinedClass}
    (unclaimed : loader.interceptors.find? (·.claims name) = none) :
    EndsIn name loader (.ok c) { loader with stats := loader.stats.count .deferred }
  | missed {e : Error} (unclaimed : loader.interceptors.find? (·.claims name) = none)
    (missing : e.isNotFound = true) :
    EndsIn name loader (.error e) { loader with stats := loader.stats.count .notFound }
  | failed {e : Error} (unclaimed : loader.interceptors.find? (·.claims name) = none)
    (otherwise : e.isNotFound = false) : EndsIn name loader (.error e) loader

/-- A search leaves the loader as it ends. -/
def Booked (id : LoaderId) (name : String) (loader : SelectiveLoader) (o : Outcome DefinedClass) :
    Prop :=
  ∃ after, o.2.loader? id = some (.selective after) ∧ EndsIn name loader o.1 after

theorem loader?_count_self (here : s.loader? id = some (.selective loader)) (event : LoadEvent) :
    (s.count id event).loader? id =
      some (.selective { loader with stats := loader.stats.count event }) := by
  rw [count, loader?_updateLoader_self, here]
  rfl

theorem booked_defineOwned (here : s.loader? id = some (.selective loader))
    (unclaimed : loader.interceptors.find? (·.claims name) = none) {event : LoadEvent}
    (made : event = .transformed ∨ event = .unmodified) (file : ClassFile) :
    Booked id name loader (defineOwned id loader name event file s) := by
  rw [defineOwned, defineInTable]
  cases hclass : (Definition.whole name file.bytes loader.domain).classIn (s.tableOf id) id
      ⟨s.nextHandle⟩ with
  | error e =>
    exact ⟨loader, here, .failed unclaimed (Definition.isNotFound_of_classIn hclass)⟩
  | ok c =>
    obtain ⟨hshape, hfile, hfree⟩ := Definition.classIn_eq_ok hclass
    obtain ⟨-, -, hname⟩ := Definition.classFile_eq_ok hfile
    have hname' : c.file.name = name := hname
    obtain rfl : c.loader = id := by rw [hshape]
    have hentered := loader?_enter_self here
    rw [hname'] at hentered
    rw [tableOf_of_selective here] at hfree
    exact ⟨_, loader?_count_self hentered event, .defined unclaimed hfree made⟩

theorem booked_loadOwned (here : s.loader? id = some (.selective loader))
    (unclaimed : loader.interceptors.find? (·.claims name) = none) (modify : Bool) :
    Booked id name loader (loadOwned id loader modify name s) := by
  rw [loadOwned]
  split
  · next e hfind =>
    exact ⟨loader, here, .failed unclaimed (ClassPath.ofReading_of_find hfind).isNotFound_eq⟩
  · exact ⟨_, loader?_count_self here .notFound, .missed unclaimed rfl⟩
  · next file _ =>
    split
    · rw [transform]
      rcases Chain.passes_or_failsAt ⟨name, id, loader.suppressStatic.matchAny name⟩
        loader.chain file with ⟨made, hpasses⟩ | ⟨unit, cause, hfails⟩
      · simp only [Chain.apply_of_passes hpasses]
        -- passing the chain leaves the loaders alone
        refine booked_defineOwned ?_ unclaimed (.inl rfl) made
        exact here
      · simp only [Chain.apply_of_failsAt hfails]
        exact ⟨loader, here, .failed unclaimed rfl⟩
    · exact booked_defineOwned here unclaimed (.inr rfl) file

theorem booked_findSelective {ask : Asking} (here : s.loader? id = some (.selective loader))
    (hothers : ∀ below, AsksFor s name id below →
      (ask below name s).2.loader? id = s.loader? id) :
    Booked id name loader (findSelective ask id loader name s) := by
  cases hfirst : loader.interceptors.find? (·.claims name) with
  | some first =>
    rw [findSelective_of_claim hfirst]
    have hsame : (answerClaim ask name first s).2.loader? id = some (.selective loader) := by
      cases first with
      | route route => exact (hothers _ (.routed here hfirst)).trans here
      | refuse _ _ => exact here
    exact ⟨_, loader?_count_self hsame .intercepted, .claimed hfirst⟩
  | none =>
    by_cases hdefer : loader.policy.decide name = .defer
    · have hsame := (hothers _ (.deferred here hfirst hdefer)).trans here
      rw [findSelective_of_defer hfirst hdefer, loadDeferred]
      rcases hask : ask loader.deferred name s with ⟨e | c, t⟩
      · rw [hask] at hsame
        by_cases hmissing : e.isNotFound = true
        · simp only [hmissing, if_true]
          exact ⟨_, loader?_count_self hsame .notFound, .missed hfirst hmissing⟩
        · simp only [if_neg hmissing]
          exact ⟨loader, hsame, .failed hfirst (Bool.eq_false_iff.mpr hmissing)⟩
      · rw [hask] at hsame
        exact ⟨_, loader?_count_self hsame .deferred, .deferred hfirst⟩
    · rw [findSelective_of_own hfirst hdefer]
      exact booked_loadOwned here hfirst _

/-! ### Requests to a loader -/

/-- Whoever it asks leaves the loader alone. -/
theorem NotRecalled.loader?_loadWithin (h : NotRecalled s id) (hasks : AsksFor s name id below)
    (depth : Nat) : (loadWithin depth below name s).2.loader? id = s.loader? id :=
  (searchesOnTheWay_loadWithin depth below name s).loader?_eq fun hback =>
    h name (Relation.TransGen.head' hasks hback)

theorem booked_find (h : NotRecalled s id) (here : s.loader? id = some (.selective loader))
    (name : String) : Booked id name loader (find id name s) := by
  rw [find, here]
  exact booked_findSelective here fun _ hasks => h.loader?_loadWithin hasks _

/-- A load is answered from the table, or it is a search. -/
theorem booked_load (h : NotRecalled s id) (here : s.loader? id = some (.selective loader))
    (hfree : loader.table.find? name = none) : Booked id name loader (load id name s) := by
  obtain ⟨depth, hload⟩ := load_eq_findSelective here hfree
  rw [hload]
  exact booked_findSelective here fun _ hasks => h.loader?_loadWithin hasks _

end Session

/-! ### What is accounted for -/

/-- A search of the loader that ended in the answer went astray: it failed, though not for want of
the class, and it is no interceptor that made it fail. -/
def SelectiveLoader.strays (loader : SelectiveLoader) (name : String) :
    Except Error DefinedClass → Bool
  | .error e => !e.isNotFound && loader.interceptors.all (!·.claims name)
  | .ok _ => false

namespace Request

/-- The request is a load of a class that the loader has defined. -/
def hits (s : Session) : Request → Bool
  | load id name => s.isDefined id name
  | _ => false

/-- The request is a direct definition, and it succeeds. -/
def defines (s : Session) : Request → Bool
  | define id d => (s.define id d).1.isOk
  | _ => false

/-- The request is a search that goes astray. -/
def strays (s : Session) (request : Request) : Bool :=
  request.seeks && (s.loader? request.loader).any fun
    | .selective loader => loader.strays request.name (request.perform s).1
    | _ => false

end Request

namespace Session

variable {s t : Session} {id : LoaderId} {name : String} {loader after final : SelectiveLoader}
  {answer : Except Error DefinedClass}

/-- How many requests of a run are of some kind, each in the session in which it is made. -/
def countRequests (kind : Session → Request → Bool) : List Request → Session → Nat
  | [], _ => 0
  | request :: rest, s => (kind s request).toNat + countRequests kind rest (request.perform s).2

/-- What has become of a loader by requests of which so many were loads of defined classes,
successful definitions, searches, and searches that went astray. -/
structure Tallied (loader after : SelectiveLoader) (hits defined sought strayed : Nat) : Prop where
  cacheHits : after.stats.cacheHits = loader.stats.cacheHits + hits
  names : after.table.length + loader.stats.defined =
    loader.table.length + after.stats.defined + defined
  distinct : (loader.table.map Prod.fst).Nodup → (after.table.map Prod.fst).Nodup
  total : after.stats.total + strayed = loader.stats.total + sought

theorem Tallied.refl (loader : SelectiveLoader) : Tallied loader loader 0 0 0 0 :=
  ⟨rfl, rfl, fun h => h, rfl⟩

theorem Tallied.trans {hits hits' defined defined' sought sought' strayed strayed' : Nat}
    (h : Tallied loader after hits defined sought strayed)
    (k : Tallied after final hits' defined' sought' strayed') :
    Tallied loader final (hits + hits') (defined + defined') (sought + sought')
      (strayed + strayed') where
  cacheHits := by rw [k.cacheHits, h.cacheHits, Nat.add_assoc]
  names := by
    have hfirst := h.names
    have hsecond := k.names
    omega
  distinct hnames := k.distinct (h.distinct hnames)
  total := by
    have hfirst := h.total
    have hsecond := k.total
    omega

/-- The search is counted where it is neither a hit nor the making of a class. -/
theorem Tallied.counted (loader : SelectiveLoader) {event : LoadEvent}
    (h : event = .intercepted ∨ event = .deferred ∨ event = .notFound) :
    Tallied loader { loader with stats := loader.stats.count event } 0 0 1 0 := by
  refine ⟨?_, ?_, fun hnames => hnames, Tally.total_count _ _⟩ <;>
    rcases h with rfl | rfl | rfl <;> rfl

theorem SelectiveLoader.strays_of_claim {first : Interceptor}
    (h : loader.interceptors.find? (·.claims name) = some first)
    (answer : Except Error DefinedClass) : loader.strays name answer = false := by
  cases answer with
  | ok _ => rfl
  | error e =>
    have hclaims := List.find?_some h
    have hany : loader.interceptors.all (!·.claims name) = false := by
      rw [List.all_eq_false]
      exact ⟨first, List.mem_of_find?_eq_some h, by simpa using hclaims⟩
    rw [SelectiveLoader.strays, hany, Bool.and_false]

/-- A search is counted, but for one that goes astray. -/
theorem EndsIn.tallied (h : EndsIn name loader answer after) :
    Tallied loader after 0 0 1 (loader.strays name answer).toNat := by
  cases h with
  | claimed first =>
    rw [SelectiveLoader.strays_of_claim first]
    exact .counted loader (.inl rfl)
  | @defined c event _ free made =>
    refine ⟨?_, ?_, fun hnames => Keyed.nodup_keys_insert name c hnames, Tally.total_count _ _⟩
    · rcases made with rfl | rfl <;> rfl
    · have hlength := Keyed.length_insert free c
      have hdefined : (loader.stats.count event).defined = loader.stats.defined + 1 := by
        rcases made with rfl | rfl <;> simp only [Tally.count, Tally.defined] <;> omega
      simp only [hlength, hdefined]
      omega
  | deferred _ => exact .counted loader (.inr (.inl rfl))
  | @missed e _ missing =>
    have hstrays : loader.strays name (.error e) = false := by
      rw [SelectiveLoader.strays, missing]
      rfl
    rw [hstrays]
    exact .counted loader (.inr (.inr rfl))
  | @failed e unclaimed otherwise =>
    have hall : loader.interceptors.all (!·.claims name) = true := by
      rw [List.find?_eq_none] at unclaimed
      exact List.all_eq_true.mpr fun item hitem => by simpa using unclaimed item hitem
    have hstrays : loader.strays name (.error e) = true := by
      rw [SelectiveLoader.strays, otherwise, hall]
      rfl
    rw [hstrays]
    exact ⟨rfl, rfl, fun hnames => hnames, rfl⟩

/-- A request counts at most once, and only if it looks for a class. -/
def CountsOnce (request : Request) (loader after : SelectiveLoader) : Prop :=
  after.stats = loader.stats ∨
    request.seeks = true ∧ ∃ event, after.stats = loader.stats.count event

theorem EndsIn.countsOnce (h : EndsIn name loader answer after) {request : Request}
    (hseeks : request.seeks = true) : CountsOnce request loader after := by
  cases h with
  | failed _ _ => exact .inl rfl
  | claimed _ => exact .inr ⟨hseeks, .intercepted, rfl⟩
  | @defined _ event _ _ _ => exact .inr ⟨hseeks, event, rfl⟩
  | deferred _ => exact .inr ⟨hseeks, .deferred, rfl⟩
  | missed _ _ => exact .inr ⟨hseeks, .notFound, rfl⟩

/-- A direct definition that succeeds adds the class to the table of the loader, and counts
nothing. -/
theorem exists_loader?_define {d : Definition} {c : DefinedClass}
    (here : s.loader? id = some (.selective loader)) (hanswer : (define id d s).1 = .ok c) :
    ∃ after, (define id d s).2.loader? id = some (.selective after) ∧
      after.stats = loader.stats ∧ after.table = loader.table.insert d.name c := by
  obtain ⟨-, hloader, hname, -, -⟩ := tables_of_define hanswer
  obtain rfl := hloader.symm
  have hentered := loader?_enter_self here
  rw [hname] at hentered
  obtain ⟨-, -, hafter | hafter⟩ := define_of_ok hanswer
  · rw [hafter]
    exact ⟨_, hentered, rfl, rfl⟩
  · have hkept : ((s.enter c).keepBytes c.loader c).loader? c.loader =
        ((s.enter c).loader? c.loader).map (·.mapEntries (· ++ [⟨(s.enter c).holdings.length⟩])) :=
      loader?_updateLoader_self ((s.enter c).addEntry _).2 c.loader _
    rw [hentered] at hkept
    rw [hafter]
    exact ⟨_, hkept, rfl, rfl⟩

/-- The request leaves the loader that it is made to in keeping with what it counts for. -/
def Accounted (s : Session) (request : Request) (loader : SelectiveLoader) : Prop :=
  ∃ after, (request.perform s).2.loader? request.loader = some (.selective after) ∧
    Tallied loader after (request.hits s).toNat (request.defines s).toNat request.seeks.toNat
      (request.strays s).toNat ∧ CountsOnce request loader after

theorem strays_eq {request : Request}
    (here : s.loader? request.loader = some (.selective loader)) : request.strays s =
      (request.seeks && loader.strays request.name (request.perform s).1) := by
  rw [Request.strays, here]
  rfl

/-- A search is accounted for by how it ends. -/
theorem Booked.accounted {request : Request}
    (h : Booked request.loader request.name loader (request.perform s))
    (here : s.loader? request.loader = some (.selective loader))
    (hseeks : request.seeks = true) (hhits : request.hits s = false) :
    Accounted s request loader := by
  have hdefines : request.defines s = false := by
    cases request with
    | define _ _ => cases hseeks
    | load _ _ => rfl
    | find _ _ => rfl
  obtain ⟨after, hafter, hends⟩ := h
  rw [Accounted, strays_eq here, hseeks, hhits, hdefines]
  exact ⟨after, hafter, hends.tallied, hends.countsOnce hseeks⟩

theorem accounted_load (h : NotRecalled s id) (here : s.loader? id = some (.selective loader))
    (name : String) : Accounted s (.load id name) loader := by
  have hdefined : Request.hits s (.load id name) = (loader.table.find? name).isSome := by
    rw [Request.hits, isDefined, Keyed.has, tableOf_of_selective here]
  cases hfound : loader.table.find? name with
  | none =>
    rw [hfound] at hdefined
    exact Booked.accounted (booked_load h here hfound) here rfl hdefined
  | some c =>
    have hload : Request.perform (.load id name) s = (.ok c, s.count id .cacheHit) :=
      load_of_find? (by rwa [tableOf_of_selective here])
    rw [Accounted, strays_eq here, hdefined, hfound, hload]
    exact ⟨_, loader?_count_self here .cacheHit,
      ⟨rfl, rfl, fun hnames => hnames, Tally.total_count _ _⟩, .inr ⟨rfl, .cacheHit, rfl⟩⟩

theorem accounted_define (here : s.loader? id = some (.selective loader)) (d : Definition) :
    Accounted s (.define id d) loader := by
  have hdefines : Request.defines s (.define id d) = (define id d s).1.isOk := rfl
  rw [Accounted, strays_eq here, hdefines]
  cases hanswer : (define id d s).1 with
  | error e =>
    have hdefine : Request.perform (.define id d) s = (.error e, s) := define_of_error hanswer
    rw [hdefine]
    exact ⟨loader, here, .refl loader, .inl rfl⟩
  | ok c =>
    obtain ⟨after, hafter, hstats, htable⟩ := exists_loader?_define here hanswer
    obtain ⟨-, -, -, hfree, -⟩ := tables_of_define hanswer
    rw [tableOf_of_selective here] at hfree
    refine ⟨after, hafter, ⟨by rw [hstats]; rfl, ?_, fun hnames => ?_, by rw [hstats]; rfl⟩,
      .inl hstats⟩
    · have hlength := Keyed.length_insert hfree c
      have hone : (Except.ok c : Except Error DefinedClass).isOk.toNat = 1 := rfl
      rw [hstats, htable, hlength, hone]
      omega
    · rw [htable]
      exact Keyed.nodup_keys_insert _ c hnames

/-- What a request makes of the loader that it is made to. -/
theorem accounted_perform {request : Request} (h : NotRecalled s request.loader)
    (here : s.loader? request.loader = some (.selective loader)) : Accounted s request loader := by
  cases request with
  | find _ name => exact Booked.accounted (booked_find h here name) here rfl rfl
  | load _ name => exact accounted_load h here name
  | define _ d => exact accounted_define here d

/-- By induction on the requests, each of which adds its own. -/
theorem tallied_run {requests : List Request} (h : NotRecalled s id)
    (here : s.loader? id = some (.selective loader)) (hon : ∀ r ∈ requests, r.loader = id) :
    ∃ after, (run (requests.map .request) s).2.loader? id = some (.selective after) ∧
      NotRecalled (run (requests.map .request) s).2 id ∧
      Tallied loader after (countRequests Request.hits requests s)
        (countRequests Request.defines requests s)
        (countRequests (fun _ request => request.seeks) requests s)
        (countRequests Request.strays requests s) := by
  induction requests generalizing s loader with
  | nil => exact ⟨loader, here, h, .refl loader⟩
  | cons request rest ih =>
    obtain ⟨hfirst, hrest⟩ := List.forall_mem_cons.mp hon
    subst hfirst
    obtain ⟨between, hbetween, hstep, -⟩ := accounted_perform h here
    obtain ⟨after, hafter, hrecall, hrun⟩ :=
      ih (h.congr (sameDirections_perform request s)) hbetween hrest
    exact ⟨after, hafter, hrecall, hstep.trans hrun⟩

/-- What the counts of a new selective loader say after any requests to it, whatever has been done
in order before. -/
theorem run_tallied (files : FileTree) {before : List Operation}
    (horder : inOrder before (start files) = true)
    (here : (run before (start files)).2.loader? id = some (.selective loader))
    (hstats : loader.stats = {}) (htable : loader.table = []) {requests : List Request}
    (hon : ∀ r ∈ requests, r.loader = id) :
    let s := (run before (start files)).2
    let t := (run (requests.map .request) s).2
    ∃ after, t.loader? id = some (.selective after) ∧
      after.stats.cacheHits = countRequests Request.hits requests s ∧
      after.stats.transformed + after.stats.unmodified + countRequests Request.defines requests s =
        after.table.length ∧ (after.table.map Prod.fst).Nodup ∧
      countRequests (fun _ request => request.seeks) requests s =
        after.stats.cacheHits + after.stats.intercepted + after.stats.transformed
          + after.stats.unmodified + after.stats.deferred + after.stats.notFound
          + countRequests Request.strays requests s ∧
      ∀ more : Request, more.loader = id → ∃ next,
        (more.perform t).2.loader? id = some (.selective next) ∧ CountsOnce more after next := by
  intro s t
  have horderly : Orderly s := orderly_run (orderly_start files) before horder
  have hnew : s.loader? id = some (.selective loader) := here
  obtain ⟨after, hafter, hrecall', hits, names, distinct, total⟩ :=
    tallied_run (horderly.notRecalled id) hnew hon
  rw [hstats] at hits names total
  rw [htable] at names distinct
  refine ⟨after, hafter, by simpa using hits, ?_, distinct List.nodup_nil, ?_, fun more hmore => ?_⟩
  · simp only [Tally.defined, List.length_nil] at names
    omega
  · simp only [Tally.total] at total
    omega
  · subst hmore
    obtain ⟨next, hnext, -, honce⟩ := accounted_perform hrecall' hafter
    exact ⟨next, hnext, honce⟩

/-- A selective loader defers to a host, which has the class `A`, and nothing of use under `B`. -/
def minding : List Operation :=
  [.change (.addEntry (.single "A" (Stub.encode { name := "A" }))),
    .change (.addEntry (.single "B" [])),
    .change (.addHost [⟨0⟩, ⟨1⟩]),
    .change (.addSelective {}),
    .change (.setDeferred ⟨2⟩ ⟨1⟩)]

/-- Requests that end in as many ways as there are then. -/
def requestsToTally : List Request :=
  [.load ⟨2⟩ "A", .load ⟨2⟩ "B", .find ⟨2⟩ "C", .define ⟨2⟩ definitionOfA, .load ⟨2⟩ "A"]

/-- Four requests and a definition: one load is a cache hit, and one search goes astray. -/
theorem run_tallied_minding :
    ∃ after, (run (requestsToTally.map .request) (run minding (start .empty)).2).2.loader? ⟨2⟩ =
        some (.selective after) ∧
      after.stats.cacheHits = 1 ∧
      after.stats.transformed + after.stats.unmodified + 1 = after.table.length ∧
      4 = after.stats.cacheHits + after.stats.intercepted + after.stats.transformed
        + after.stats.unmodified + after.stats.deferred + after.stats.notFound + 1 := by
  have hhits : countRequests Request.hits requestsToTally (run minding (start .empty)).2 = 1 := by
    decide +kernel
  have hdefines :
      countRequests Request.defines requestsToTally (run minding (start .empty)).2 = 1 := by
    decide +kernel
  have hstrays :
      countRequests Request.strays requestsToTally (run minding (start .empty)).2 = 1 := by
    decide +kernel
  have hnew : ∃ loader, (run minding (start .empty)).2.loader? ⟨2⟩ = some (.selective loader) ∧
      loader.stats = {} ∧ loader.table = [] := ⟨_, rfl, rfl, rfl⟩
  obtain ⟨loader, here, hstats, htable⟩ := hnew
  have horder : inOrder minding (start .empty) = true := by decide +kernel
  have hon : ∀ r ∈ requestsToTally, r.loader = ⟨2⟩ := by decide
  obtain ⟨after, hafter, hits, names, -, total, -⟩ :=
    run_tallied .empty horder here hstats htable hon
  refine ⟨after, hafter, hits.trans hhits, by rw [← names, hdefines], ?_⟩
  rw [← hstrays, ← total]
  rfl

end Session

end Understudy
