import Understudy.Proofs.Session.Asking
import Understudy.Proofs.Session.Growth
import Understudy.Proofs.Transformer.Passes

/-!
What loaders do while a class is looked for. Every load, and every search that passes over what has
been defined, is made of steps of three kinds, each by a loader on the way of the search: something
is counted, a class is passed through a chain, or a class is entered into a table. A search that
fails enters nothing. A direct definition is a class entered, or nothing at all. Main statements:
`searches_load`, `searches_find`, `define_of_ok` and `define_of_error`; what one step leaves alone
is told by the lemmas on `SearchStep`, and what a search leaves alone follows by induction on its
steps.
-/

namespace Understudy

/-- What a loader is without the classes that it has defined and without its counts. -/
def Loader.setup : Loader → Loader
  | host loader => host { loader with table := [] }
  | selective loader => selective { loader with table := [], stats := {} }
  | resources loader => resources loader

theorem Loader.entries_setup (l : Loader) : l.setup.entries = l.entries := by
  cases l <;> rfl

/-- The request looks for a class. -/
def Request.seeks : Request → Bool
  | define _ _ => false
  | _ => true

@[simp]
theorem Loader.setup_mapTable (l : Loader) (f : ClassTable → ClassTable) :
    (l.mapTable f).setup = l.setup := by
  cases l <;> rfl

namespace Session

/-- A loader enters a class because it is its own: a host has found it on its class path; no
interceptor of a selective loader claims it, and the policy does not defer it. -/
inductive TakesOn (s : Session) (c : DefinedClass) : Prop
  | host {host : HostLoader} (here : s.loader? c.loader = some (.host host))
    (found : (s.classPathOf host.entries).find s.files c.file.name = .ok (some c.file))
    (plain : c.domain = {}) : TakesOn s c
  | selective {loader : SelectiveLoader} (here : s.loader? c.loader = some (.selective loader))
    (unclaimed : loader.interceptors.find? (·.claims c.file.name) = none)
    (own : loader.policy.decide c.file.name ≠ .defer) : TakesOn s c

/-- One step of a search for a name by some loaders. A search that fails counts only what was not
found and what was claimed, and enters no class. -/
inductive SearchStep (among : LoaderId → Prop) (name : String) (success : Bool) (s : Session) :
    Session → Prop
  | counted {id : LoaderId} {event : LoadEvent} (who : among id)
    (kind : success = true ∨ event = .notFound ∨ event = .intercepted) :
    SearchStep among name success s (s.count id event)
  | passed {id : LoaderId} {loader : SelectiveLoader} (who : among id)
    (here : s.loader? id = some (.selective loader))
    (unclaimed : loader.interceptors.find? (·.claims name) = none)
    (own : loader.policy.decide name = .modify) (file : ClassFile) :
    SearchStep among name success s (transform id loader name file s).2
  | entered {c : DefinedClass} (who : among c.loader) (succeeded : success = true)
    (named : c.file.name = name) (handle : c.handle = ⟨s.nextHandle⟩)
    (parsed : ClassFile.parse c.file.bytes = .ok c.file)
    (free : (s.tableOf c.loader).find? c.file.name = none) (takes : TakesOn s c) :
    SearchStep among name success s (s.enter c)

/-- Any number of steps of a search. -/
abbrev Searches (among : LoaderId → Prop) (name : String) (success : Bool) :
    Session → Session → Prop :=
  Relation.ReflTransGen (SearchStep among name success)

variable {among : LoaderId → Prop} {name : String} {success : Bool} {s t : Session} {id : LoaderId}

theorem SearchStep.mono {more : LoaderId → Prop} (h : SearchStep among name success s t)
    (hmore : ∀ id, among id → more id) : SearchStep more name success s t := by
  cases h with
  | counted who kind => exact .counted (hmore _ who) kind
  | passed who here unclaimed own file => exact .passed (hmore _ who) here unclaimed own file
  | entered who succeeded named handle parsed free takes =>
    exact .entered (hmore _ who) succeeded named handle parsed free takes

theorem Searches.mono {more : LoaderId → Prop} (h : Searches among name success s t)
    (hmore : ∀ id, among id → more id) : Searches more name success s t :=
  Relation.ReflTransGen.mono (fun _ _ step => step.mono hmore) _ _ h

theorem TakesOn.keepsClasses {c : DefinedClass} (h : TakesOn s c) :
    s.keepsClasses c.loader = true := by
  cases h with
  | host here _ _ => exact keepsClasses_of_host here
  | selective here _ _ => exact keepsClasses_of_selective here

/-! ### What a search is made of -/

section
variable {host : HostLoader} {loader : SelectiveLoader}

theorem searches_loadFromHost (who : among id) (here : s.loader? id = some (.host host)) :
    Searches among name (loadFromHost id host name s).1.isOk s (loadFromHost id host name s).2 := by
  rw [loadFromHost]
  split
  · exact .refl
  · next hnone =>
    split
    · exact .refl
    · exact .refl
    · next file hfind =>
      split
      · next hname =>
        have hfree : (s.tableOf id).find? file.name = none := by
          rw [tableOf, here, hname]
          exact hnone
        refine .single (.entered (c := ⟨⟨s.nextHandle⟩, id, {}, file⟩) who rfl hname rfl
          (ClassPath.parse_of_find hfind) hfree (.host here ?_ rfl))
        rw [hname]
        exact hfind
      · exact .refl

theorem searches_defineOwned (who : among id) (here : s.loader? id = some (.selective loader))
    (unclaimed : loader.interceptors.find? (·.claims name) = none)
    (own : loader.policy.decide name ≠ .defer) (event : LoadEvent) (file : ClassFile) :
    Searches among name (defineOwned id loader name event file s).1.isOk s
      (defineOwned id loader name event file s).2 := by
  rw [defineOwned, defineInTable]
  cases hclass : (Definition.whole name file.bytes loader.domain).classIn (s.tableOf id) id
      ⟨s.nextHandle⟩ with
  | error e => exact .refl
  | ok c =>
    obtain ⟨hshape, hfile, hfree⟩ := Definition.classIn_eq_ok hclass
    obtain ⟨-, hparse, hname⟩ := Definition.classFile_eq_ok hfile
    have hname' : c.file.name = name := hname
    have hloader : c.loader = id := by rw [hshape]
    have hentered : SearchStep among name true s (s.enter c) := by
      refine .entered (hloader ▸ who) rfl hname' (by rw [hshape]) hparse ?_
        (.selective (hloader ▸ here) (by rw [hname']; exact unclaimed) (by rw [hname']; exact own))
      rw [hloader, hname']
      exact hfree
    exact (Relation.ReflTransGen.single hentered).tail (.counted who (.inl rfl))

theorem searches_loadOwned (who : among id) (here : s.loader? id = some (.selective loader))
    (unclaimed : loader.interceptors.find? (·.claims name) = none) {modify : Bool}
    (own : loader.policy.decide name = if modify then .modify else .loadUnmodified) :
    Searches among name (loadOwned id loader modify name s).1.isOk s
      (loadOwned id loader modify name s).2 := by
  have hown : loader.policy.decide name ≠ .defer := by
    rw [own]
    cases modify <;> decide
  rw [loadOwned]
  split
  · exact .refl
  · exact .single (.counted who (.inr (.inl rfl)))
  · next file _ =>
    split
    · next hmodify =>
      rw [if_pos hmodify] at own
      have hpassed : ∀ success, SearchStep among name success s
          (transform id loader name file s).2 := fun _ => .passed who here unclaimed own file
      split
      · next e t ht =>
        rw [ht] at hpassed
        exact .single (hpassed _)
      · next changed t ht =>
        have here' : t.loader? id = some (.selective loader) := by
          rw [show t = (transform id loader name file s).2 by rw [ht]]
          exact here
        rw [ht] at hpassed
        exact (searches_defineOwned who here' unclaimed hown .transformed changed).head (hpassed _)
    · exact searches_defineOwned who here unclaimed hown .unmodified file

theorem searches_loadDeferred {ask : Asking} (who : among id)
    (hask : Searches among name (ask loader.deferred name s).1.isOk s
      (ask loader.deferred name s).2) :
    Searches among name (loadDeferred ask id loader name s).1.isOk s
      (loadDeferred ask id loader name s).2 := by
  rw [loadDeferred]
  split
  · next c t hanswer =>
    rw [hanswer] at hask
    exact hask.tail (.counted who (.inl rfl))
  · next e t hanswer =>
    rw [hanswer] at hask
    split
    · exact hask.tail (.counted who (.inr (.inl rfl)))
    · exact hask

/-- Asking takes the steps of a search by the loaders on the way. -/
def SearchesOnTheWay (ask : Asking) : Prop :=
  ∀ id name s, Searches (Reaches s name id) name (ask id name s).1.isOk s (ask id name s).2

/-- What a loader that is asked for a name does is on the way of the one that asks. -/
theorem SearchesOnTheWay.below {ask : Asking} (hask : SearchesOnTheWay ask) {below : LoaderId}
    (hasks : AsksFor s name id below) :
    Searches (Reaches s name id) name (ask below name s).1.isOk s (ask below name s).2 :=
  (hask below name s).mono fun _ hreach => hreach.head hasks

theorem searches_findSelective {ask : Asking} (hask : SearchesOnTheWay ask)
    (here : s.loader? id = some (.selective loader)) :
    Searches (Reaches s name id) name (findSelective ask id loader name s).1.isOk s
      (findSelective ask id loader name s).2 := by
  have who : Reaches s name id id := .refl
  rw [findSelective]
  split
  · next interceptor hfirst =>
    cases interceptor with
    | route route =>
      exact (hask.below (.routed here hfirst)).tail (.counted who (.inr (.inr rfl)))
    | refuse _ e => exact .single (.counted who (.inr (.inr rfl)))
  · next hnone =>
    split
    · next hdecide => exact searches_loadOwned who here hnone (by rw [hdecide]; rfl)
    · next hdecide => exact searches_loadOwned who here hnone (by rw [hdecide]; rfl)
    · next hdecide => exact searches_loadDeferred who (hask.below (.deferred here hnone hdecide))

end

theorem searchesOnTheWay_loadAsking {ask : Asking} (hask : SearchesOnTheWay ask) :
    SearchesOnTheWay (loadAsking ask) := by
  intro id name s
  rw [loadAsking]
  split
  · next host here => exact searches_loadFromHost .refl here
  · next loader here =>
    rw [loadFromSelective]
    split
    · exact .single (.counted .refl (.inl rfl))
    · exact searches_findSelective hask here
  · exact .refl

/-- By induction on how many loaders may ask each other in turn. -/
theorem searchesOnTheWay_loadWithin (depth : Nat) : SearchesOnTheWay (loadWithin depth) := by
  induction depth with
  | zero => exact fun _ _ _ => .refl
  | succ depth ih => exact searchesOnTheWay_loadAsking ih

/-- A load is a search by the loaders on its way. -/
theorem searches_load (id : LoaderId) (name : String) (s : Session) :
    Searches (Reaches s name id) name (load id name s).1.isOk s (load id name s).2 :=
  searchesOnTheWay_loadWithin s.loaders.length id name s

theorem searches_find (id : LoaderId) (name : String) (s : Session) :
    Searches (Reaches s name id) name (find id name s).1.isOk s (find id name s).2 := by
  rw [find]
  split
  · next loader here => exact searches_findSelective (searchesOnTheWay_loadWithin _) here
  · exact searches_load id name s

/-- A request that looks for a class makes a search. -/
theorem searches_perform {request : Request} (h : request.seeks = true) (s : Session) :
    Searches (Reaches s request.name request.loader) request.name (request.perform s).1.isOk s
      (request.perform s).2 := by
  cases request with
  | load id name => exact searches_load id name s
  | find id name => exact searches_find id name s
  | define _ _ => cases h

/-! ### Direct definitions -/

section
variable {d : Definition} {c : DefinedClass} {e : Error}

theorem defineInTable_of_error {d : Definition} {e : Error}
    (h : (defineInTable id d s).1 = .error e) : defineInTable id d s = (.error e, s) := by
  rw [defineInTable] at h ⊢
  cases hclass : d.classIn (s.tableOf id) id ⟨s.nextHandle⟩ with
  | error cause =>
    rw [hclass] at h
    obtain rfl := Except.error.inj h
    rfl
  | ok c =>
    rw [hclass] at h
    cases h

/-- A class that could not be defined directly leaves the session as it is. -/
theorem define_of_error {d : Definition} {e : Error}
    (h : (define id d s).1 = .error e) : define id d s = (.error e, s) := by
  rw [define] at h ⊢
  rcases hid : s.loader? id with _ | ⟨_ | _ | _⟩ <;> simp only [hid] at h ⊢
  · rw [← Except.error.inj h]
  · exact defineInTable_of_error h
  · rcases htable : defineInTable id d s with ⟨cause | c, t⟩
    · simp only [htable] at h ⊢
      rw [← htable]
      exact defineInTable_of_error (by rw [htable]; exact h)
    · rw [htable] at h
      cases h
  · rw [← Except.error.inj h]

/-- A class that could be defined directly is entered, and a selective loader keeps its bytes as
well. -/
theorem define_of_ok (h : (define id d s).1 = .ok c) :
    s.keepsClasses id = true ∧ d.classIn (s.tableOf id) id ⟨s.nextHandle⟩ = .ok c ∧
      ((define id d s).2 = s.enter c ∨ (define id d s).2 = (s.enter c).keepBytes id c) := by
  rw [define] at h ⊢
  rcases hid : s.loader? id with _ | ⟨_ | _ | _⟩ <;> simp only [hid, defineInTable] at h ⊢
  · cases h
  · cases hclass : d.classIn (s.tableOf id) id ⟨s.nextHandle⟩ with
    | error _ =>
      rw [hclass] at h
      cases h
    | ok _ =>
      rw [hclass] at h
      obtain rfl := Except.ok.inj h
      exact ⟨keepsClasses_of_host hid, rfl, .inl rfl⟩
  · cases hclass : d.classIn (s.tableOf id) id ⟨s.nextHandle⟩ with
    | error _ =>
      rw [hclass] at h
      cases h
    | ok _ =>
      rw [hclass] at h
      obtain rfl := Except.ok.inj h
      exact ⟨keepsClasses_of_selective hid, rfl, .inr rfl⟩
  · cases h

end

/-! ### What a step leaves alone -/

theorem loader?_count_of_ne (s : Session) {other : LoaderId} (event : LoadEvent)
    (h : other ≠ id) : (s.count id event).loader? other = s.loader? other :=
  loader?_updateLoader_of_ne s _ h

theorem loader?_enter_self {loader : SelectiveLoader} {c : DefinedClass}
    (here : s.loader? c.loader = some (.selective loader)) :
    (s.enter c).loader? c.loader =
      some (.selective { loader with table := loader.table.insert c.file.name c }) := by
  have hself := loader?_updateLoader_self s c.loader (·.mapTable (·.insert c.file.name c))
  rw [here] at hself
  exact hself

theorem loader?_enter_of_ne (s : Session) {other : LoaderId} {c : DefinedClass}
    (h : other ≠ c.loader) : (s.enter c).loader? other = s.loader? other :=
  loader?_updateLoader_of_ne s _ h

theorem SearchStep.files (h : SearchStep among name success s t) : t.files = s.files := by
  cases h <;> rfl

theorem SearchStep.holdings (h : SearchStep among name success s t) : t.holdings = s.holdings := by
  cases h <;> rfl

/-- Who takes no part is as before. -/
theorem SearchStep.loader?_eq (h : SearchStep among name success s t) (hid : ¬ among id) :
    t.loader? id = s.loader? id := by
  cases h with
  | counted who _ => exact loader?_count_of_ne s _ fun heq => hid (heq ▸ who)
  | passed _ _ _ _ _ => rfl
  | entered who _ _ _ _ _ _ => exact loader?_enter_of_ne s fun heq => hid (heq ▸ who)

/-- All loaders are set up as before. -/
theorem SearchStep.map_setup_eq (h : SearchStep among name success s t) (id : LoaderId) :
    (t.loader? id).map Loader.setup = (s.loader? id).map Loader.setup := by
  cases h with
  | counted _ _ => exact map_updateLoader Loader.setup s _ id fun l => by cases l <;> rfl
  | passed _ _ _ _ _ => rfl
  | entered _ _ _ _ _ _ _ =>
    exact map_updateLoader Loader.setup s _ id fun l => l.setup_mapTable _

/-- What was noted of visits before is kept. A visit that is added is of a unit in the chain of a
loader that modifies the name. -/
theorem SearchStep.exists_visits (h : SearchStep among name success s t) :
    ∃ visits, t.visits = s.visits ++ visits ∧ ∀ visit ∈ visits,
      among visit.context.loader ∧ visit.context.className = name ∧
        ∃ loader, s.loader? visit.context.loader = some (.selective loader) ∧
          loader.interceptors.find? (·.claims name) = none ∧ visit.unit ∈ loader.chain ∧
            loader.policy.decide name = .modify := by
  cases h with
  | counted _ _ => exact ⟨[], (List.append_nil _).symm, fun _ hmem => nomatch hmem⟩
  | entered _ _ _ _ _ _ _ => exact ⟨[], (List.append_nil _).symm, fun _ hmem => nomatch hmem⟩
  | @passed id loader who here unclaimed own file =>
    refine ⟨_, rfl, fun visit hvisit => ?_⟩
    have hunit := (Chain.units_visits_prefix _ _ _).subset (List.mem_map_of_mem hvisit)
    rw [Chain.context_of_mem_visits hvisit]
    exact ⟨who, rfl, loader, here, unclaimed, hunit, own⟩

/-- Visits of one kind, and then more of them. -/
theorem exists_visits_trans {u : Session} {P : Visit → Prop}
    (h : ∃ visits, t.visits = s.visits ++ visits ∧ ∀ visit ∈ visits, P visit)
    (k : ∃ visits, u.visits = t.visits ++ visits ∧ ∀ visit ∈ visits, P visit) :
    ∃ visits, u.visits = s.visits ++ visits ∧ ∀ visit ∈ visits, P visit := by
  obtain ⟨first, hfirst, hkind⟩ := h
  obtain ⟨second, hsecond, hkind'⟩ := k
  refine ⟨first ++ second, by rw [hsecond, hfirst, List.append_assoc], fun visit hvisit => ?_⟩
  exact (List.mem_append.mp hvisit).elim (hkind visit) (hkind' visit)

/-! ### What a search leaves alone -/

theorem Searches.files (h : Searches among name success s t) : t.files = s.files := by
  induction h with
  | refl => rfl
  | tail _ step ih => exact step.files.trans ih

theorem Searches.holdings (h : Searches among name success s t) : t.holdings = s.holdings := by
  induction h with
  | refl => rfl
  | tail _ step ih => exact step.holdings.trans ih

theorem Searches.loader?_eq (h : Searches among name success s t) (hid : ¬ among id) :
    t.loader? id = s.loader? id := by
  induction h with
  | refl => rfl
  | tail _ step ih => exact (step.loader?_eq hid).trans ih

theorem Searches.map_setup_eq (h : Searches among name success s t) (id : LoaderId) :
    (t.loader? id).map Loader.setup = (s.loader? id).map Loader.setup := by
  induction h with
  | refl => rfl
  | tail _ step ih => exact (step.map_setup_eq id).trans ih

/-- A host stays one, with the same class path. -/
theorem Searches.exists_host {host : HostLoader} (h : Searches among name success s t)
    (here : s.loader? id = some (.host host)) :
    ∃ table, t.loader? id = some (.host { host with table := table }) := by
  have hsetup := h.map_setup_eq id
  rw [here] at hsetup
  obtain ⟨l, hl, heq⟩ := Option.map_eq_some_iff.mp hsetup
  cases l with
  | selective _ => cases heq
  | resources _ => cases heq
  | host m =>
    refine ⟨m.table, ?_⟩
    cases m
    cases heq
    exact hl

/-- A selective loader stays one, and is set up as before. -/
theorem Searches.exists_selective {loader : SelectiveLoader}
    (h : Searches among name success s t) (here : s.loader? id = some (.selective loader)) :
    ∃ table stats,
      t.loader? id = some (.selective { loader with table := table, stats := stats }) := by
  have hsetup := h.map_setup_eq id
  rw [here] at hsetup
  obtain ⟨l, hl, heq⟩ := Option.map_eq_some_iff.mp hsetup
  cases l with
  | host _ => cases heq
  | resources _ => cases heq
  | selective m =>
    refine ⟨m.table, m.stats, ?_⟩
    cases m
    cases heq
    exact hl

end Session

end Understudy
