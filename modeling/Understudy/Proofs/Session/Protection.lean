import Understudy.Proofs.Session.Policies

/-!
Names that are protected. Built-in ignores are never taken away, so a selective loader that was set
up with the default ones defers what they match for good: it passes no class of such a name through
its chain, and keeps none in its table but what was defined there directly under that name; so what
a unit may have renamed is not in it. Main statement: `protected_spared`, for every set-up that
keeps the default ignores and every run.
-/

namespace Understudy

/-- The names that the default ignores match. -/
def Policy.Protected (name : String) : Prop := (Patterns.ofStrings defaultIgnored).Match name

theorem Policy.decide_of_protected {policy : Policy} {name : String}
    (hbuiltin : policy.builtin = Patterns.ofStrings defaultIgnored) (hname : Protected name) :
    policy.decide name = .defer := by
  rw [decide_eq, hbuiltin]
  exact if_pos hname

/-- The built-in ignores of a loader that has a policy. -/
def Loader.builtin? : Loader → Option Patterns
  | selective loader => some loader.policy.builtin
  | _ => none

namespace Session

/-- A selective loader that has the default ignores. -/
def Guarded (s : Session) (id : LoaderId) : Prop :=
  (s.loader? id).map Loader.builtin? = some (some (Patterns.ofStrings Policy.defaultIgnored))

variable {s t u : Session} {id : LoaderId} {name : String}

theorem guarded_iff : Guarded s id ↔ ∃ policy, HasPolicy s id policy ∧
    policy.builtin = Patterns.ofStrings Policy.defaultIgnored := by
  rw [Guarded]
  rcases hid : s.loader? id with _ | (_ | _ | _) <;>
    simp [HasPolicy, hid, Loader.builtin?, Loader.policy?]

/-- Ignores that are appended to its policy leave it guarded. -/
theorem Guarded.of_extends (h : Guarded s id)
    (hkeeps : ∀ policy, HasPolicy s id policy → ∃ later, HasPolicy t id later ∧
      policy.Extends later) : Guarded t id := by
  obtain ⟨policy, hpolicy, hbuiltin⟩ := guarded_iff.mp h
  obtain ⟨_, hlater, appended, rfl⟩ := hkeeps policy hpolicy
  exact guarded_iff.mpr ⟨_, hlater, hbuiltin⟩

theorem Guarded.of_hasPolicy (h : Guarded s id)
    (hkeeps : ∀ policy, HasPolicy s id policy → HasPolicy t id policy) : Guarded t id :=
  h.of_extends fun policy hpolicy => ⟨policy, hkeeps policy hpolicy, .refl policy⟩

theorem Guarded.decide_eq (h : Guarded s id) {loader : SelectiveLoader}
    (here : s.loader? id = some (.selective loader)) (hname : Policy.Protected name) :
    loader.policy.decide name = .defer := by
  obtain ⟨policy, hpolicy, hbuiltin⟩ := guarded_iff.mp h
  rw [hpolicy.policy_eq here]
  exact Policy.decide_of_protected hbuiltin hname

/-- It never takes a class of a protected name on itself. -/
theorem Guarded.not_protected (h : Guarded s id) {c : DefinedClass} (hloader : c.loader = id)
    (htakes : TakesOn s c) : ¬ Policy.Protected c.file.name := by
  subst hloader
  cases htakes with
  | host here _ _ => rw [Guarded, here] at h; cases h
  | selective here _ own => exact fun hname => own (h.decide_eq here hname)

/-- How a guarded loader comes through some operations: no visit is made for it under a protected
name, and a class of such a name is new in its table only with an excuse. -/
structure Spares (id : LoaderId) (excused : String × DefinedClass → Prop) (s t : Session) :
    Prop where
  guarded : Guarded t id
  visits : ∃ visits, t.visits = s.visits ++ visits ∧
    ∀ visit ∈ visits, visit.context.loader = id → ¬ Policy.Protected visit.context.className
  table : ∀ item ∈ t.tableOf id, item ∈ s.tableOf id ∨
    item.1 = item.2.file.name ∧ (Policy.Protected item.1 → excused item)

variable {excused : String × DefinedClass → Prop}

theorem Spares.refl (h : Guarded s id) : Spares id excused s s where
  guarded := h
  visits := ⟨[], (List.append_nil _).symm, fun _ hmem => nomatch hmem⟩
  table _ hitem := .inl hitem

theorem Spares.mono {more : String × DefinedClass → Prop} (h : Spares id excused s t)
    (hmore : ∀ item, excused item → more item) : Spares id more s t where
  guarded := h.guarded
  visits := h.visits
  table item hitem :=
    (h.table item hitem).imp_right fun ⟨hname, hexcused⟩ =>
      ⟨hname, fun hprotected => hmore item (hexcused hprotected)⟩

theorem Spares.trans (h : Spares id excused s t) (k : Spares id excused t u) :
    Spares id excused s u where
  guarded := k.guarded
  visits := exists_visits_trans h.visits k.visits
  table item hitem := (k.table item hitem).elim (h.table item) .inr

/-- What leaves tables and visits alone spares everything. -/
theorem Spares.of_same (hguarded : Guarded t id) (hvisits : t.visits = s.visits)
    (htable : t.tableOf id = s.tableOf id) : Spares id excused s t where
  guarded := hguarded
  visits := ⟨[], by rw [hvisits, List.append_nil], fun _ hmem => nomatch hmem⟩
  table _ hitem := .inl (htable ▸ hitem)

/-! ### Requests -/

theorem SearchStep.spares {among : LoaderId → Prop} {success : Bool}
    (h : SearchStep among name success s t) (hguarded : Guarded s id) :
    Spares id excused s t where
  guarded := hguarded.of_hasPolicy fun _ hpolicy => (h.obeys hpolicy).has
  visits := by
    obtain ⟨policy, hpolicy, hbuiltin⟩ := guarded_iff.mp hguarded
    obtain ⟨visits, hvisits, hobeyed⟩ := (h.obeys hpolicy).visits
    refine ⟨visits, hvisits, fun visit hvisit hloader hname => ?_⟩
    have hmodify := hobeyed visit hvisit hloader
    rw [Policy.decide_of_protected hbuiltin hname] at hmodify
    cases hmodify
  table item hitem := by
    cases h with
    | counted _ _ => exact .inl (by simpa using hitem)
    | passed _ _ _ _ => exact .inl hitem
    | entered _ _ _ _ _ _ takes =>
      rcases mem_tableOf_enter takes.keepsClasses hitem with ⟨hid, rfl⟩ | hold
      · exact .inr ⟨rfl, fun hname => absurd hname (hguarded.not_protected hid.symm takes)⟩
      · exact .inl hold

theorem Searches.spares {among : LoaderId → Prop} {success : Bool}
    (h : Searches among name success s t) (hguarded : Guarded s id) : Spares id excused s t := by
  induction h with
  | refl => exact .refl hguarded
  | tail _ step ih => exact ih.trans (step.spares ih.guarded)

/-- A class was defined directly, under the name that it is found under. -/
def DefinedDirectly (id : LoaderId) (replies : List Reply) (item : String × DefinedClass) : Prop :=
  ∃ d, ⟨.define id d, .ok item.2⟩ ∈ replies ∧ d.name = item.1

theorem guarded_enter (h : Guarded s id) (c : DefinedClass) : Guarded (s.enter c) id :=
  h.of_hasPolicy fun _ hpolicy => hpolicy.enter c

theorem guarded_keepBytes (h : Guarded s id) (other : LoaderId) (c : DefinedClass) :
    Guarded (s.keepBytes other c) id :=
  h.of_hasPolicy fun _ hpolicy => hpolicy.keepBytes other c

/-- A direct definition adds one class, under the name that it was asked for. -/
theorem spares_define (hguarded : Guarded s id) (other : LoaderId) (d : Definition) :
    Spares id (DefinedDirectly id [⟨.define other d, (define other d s).1⟩]) s
      (define other d s).2 := by
  cases hanswer : (define other d s).1 with
  | error e =>
    rw [define_of_error hanswer]
    exact .refl hguarded
  | ok c =>
    obtain ⟨hkeeps, hclass, hafter⟩ := define_of_ok hanswer
    obtain ⟨hshape, hfile, -⟩ := Definition.classIn_eq_ok hclass
    obtain ⟨-, -, hname⟩ := Definition.classFile_eq_ok hfile
    have hloader : c.loader = other := by rw [hshape]
    have hentered : Spares id (DefinedDirectly id [⟨.define other d, .ok c⟩]) s (s.enter c) := by
      refine ⟨guarded_enter hguarded c, ⟨[], (List.append_nil _).symm, fun _ hmem => nomatch hmem⟩,
        fun item hitem => ?_⟩
      rcases mem_tableOf_enter (hloader ▸ hkeeps) hitem with ⟨hid, rfl⟩ | hold
      · refine .inr ⟨rfl, fun _ => ⟨d, ?_, hname.symm⟩⟩
        rw [hid, hloader]
        exact List.mem_singleton_self _
      · exact .inl hold
    rcases hafter with hafter | hafter
    · rw [hafter]
      exact hentered
    · rw [hafter]
      exact hentered.trans (.of_same (guarded_keepBytes hentered.guarded other c) rfl
        ((sameTables_keepBytes _ other c).tables id))

theorem spares_perform (hguarded : Guarded s id) (request : Request) :
    Spares id (DefinedDirectly id [⟨request, (request.perform s).1⟩]) s (request.perform s).2 := by
  cases request with
  | load other name => exact (searches_load other name s).spares hguarded
  | find other name => exact (searches_find other name s).spares hguarded
  | define other d => exact spares_define hguarded other d

/-! ### Changes and runs -/

/-- A change takes no built-in ignore away. -/
theorem guarded_change (h : Guarded s id) (change : Change) : Guarded (change.perform s) id :=
  h.of_extends fun policy hpolicy => ⟨_, hpolicy.change change, Policy.extends_run _ policy⟩

/-- By induction on the run. -/
theorem spares_run (hguarded : Guarded s id) (ops : List Operation) :
    Spares id (DefinedDirectly id (run ops s).1) s (run ops s).2 := by
  induction ops generalizing s with
  | nil => exact .refl hguarded
  | cons op rest ih =>
    cases op with
    | request request =>
      have hfirst := spares_perform hguarded request
      refine (hfirst.mono ?_).trans ((ih hfirst.guarded).mono ?_)
      · rintro item ⟨d, hreply, hname⟩
        refine ⟨d, ?_, hname⟩
        rw [List.mem_singleton.mp hreply]
        exact List.mem_cons_self
      · rintro item ⟨d, hreply, hname⟩
        exact ⟨d, List.mem_cons_of_mem _ hreply, hname⟩
    | change change =>
      have hlater := guarded_change hguarded change
      exact (Spares.of_same hlater (visits_change change s)
        ((sameTables_perform change s).tables id)).trans (ih hlater)

/-- A selective loader set up with the default ignores, whatever else it was set up from, and
whatever happens to it and to all others afterwards. -/
theorem protected_spared {config : Setup} (hignores : config.defaultIgnores = true)
    (hadded : s.addSelective config = (.ok id, t)) (ops : List Operation) :
    (∃ visits, (run ops t).2.visits = t.visits ++ visits ∧ ∀ visit ∈ visits,
      visit.context.loader = id → ¬ Policy.Protected visit.context.className) ∧
    ∀ item ∈ (run ops t).2.tableOf id,
      Policy.Protected item.1 ∨ Policy.Protected item.2.file.name →
        DefinedDirectly id (run ops t).1 item := by
  have hspec := addSelective_spec config s
  rw [hadded] at hspec
  obtain ⟨u, entries, -, hnew⟩ := hspec
  have here := loader?_addLoader_self u (.selective {
    policy := config.policy
    suppressStatic := config.suppressStatic
    entries := entries
    deferred := ambient
    domain := config.domain })
  rw [← hnew] at here
  have hguarded : Guarded t id := by
    rw [Guarded, here]
    simp [Loader.builtin?, Setup.policy, hignores]
  have hspares := spares_run hguarded ops
  refine ⟨hspares.visits, fun item hitem hname => ?_⟩
  rcases hspares.table item hitem with hold | ⟨hbears, hexcused⟩
  · -- the table was empty in the beginning
    rw [tableOf, here] at hold
    cases hold
  · rw [← hbears, or_self] at hname
    exact hexcused hname

/-- A set-up that modifies everything but what is protected. -/
def modifyingAll : Setup := { prepare := Patterns.ofStrings ["*"] }

/-- A transformer that puts a class of a protected name in the place of every class. -/
def disguise : Transformer where
  name := "disguise"
  accepts _ _ := true
  transform file _ := file.withBytes (Stub.encode { name := "java.Fake" })

/-- The loader has the class `A` and a class of a protected name on its class path. It is asked for
both, and for the class that `A` is renamed to; another protected class is defined directly. -/
def tampering : List Operation :=
  [.change (.addEntry (.single "A" (Stub.encode { name := "A" }))),
    .change (.addEntry (.single "java.Own" (Stub.encode { name := "java.Own" }))),
    .change (.appendTo ⟨1⟩ ⟨0⟩), .change (.appendTo ⟨1⟩ ⟨1⟩),
    .change (.setChain ⟨1⟩ [disguise]),
    .request (.load ⟨1⟩ "A"), .request (.load ⟨1⟩ "java.Own"), .request (.find ⟨1⟩ "java.Fake"),
    .request (.define ⟨1⟩ (.whole "java.Given" (Stub.encode { name := "java.Given" }) {}))]

/-- The one class in its table is then the one that was defined directly, though a unit was run. -/
theorem protected_spared_tampering :
    ∃ t, (start .empty).addSelective modifyingAll = (.ok ⟨1⟩, t) ∧
      (run tampering t).2.visits.length = 1 ∧
      ((run tampering t).2.tableOf ⟨1⟩).map Prod.fst = ["java.Given"] ∧
      ∀ item ∈ (run tampering t).2.tableOf ⟨1⟩, Policy.Protected item.1 →
        DefinedDirectly ⟨1⟩ (run tampering t).1 item := by
  refine ⟨_, rfl, by decide +kernel, by decide +kernel, fun item hitem hname => ?_⟩
  have hignores : modifyingAll.defaultIgnores = true := rfl
  have hadded : (start .empty).addSelective modifyingAll = (.ok ⟨1⟩, _) := rfl
  exact (protected_spared hignores hadded tampering).2 item hitem (.inl hname)

end Session

end Understudy
