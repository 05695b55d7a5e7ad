import Understudy.Proofs.Session.Modified
import Understudy.Proofs.Session.Search

/-!
What the answer to a load depends on. A selective loader that takes a class on itself answers out of
what its class path finds, its chain and its table, and the number of the next class tells only in
the identity of what it defines. Any other answer is that of the one loader that is asked. So two
sessions that agree on the loaders on the way of a search answer alike. Main statement:
`answer_congr`.
-/

namespace Understudy

/-- What a class is, apart from its identity. -/
abbrev DefinedClass.Content := LoaderId × ProtectionDomain × ClassFile

/-- The class without its identity. -/
def DefinedClass.content (c : DefinedClass) : Content := (c.loader, c.domain, c.file)

theorem DefinedClass.cases_of_map_content_eq {x y : Except Error DefinedClass}
    (h : x.map content = y.map content) :
    (∃ e, x = .error e ∧ y = .error e) ∨
      ∃ c d, x = .ok c ∧ y = .ok d ∧ c.content = d.content := by
  rcases x with e | c <;> rcases y with e' | d <;> simp [Except.map] at h
  · exact .inl ⟨e, rfl, by rw [h]⟩
  · exact .inr ⟨c, d, rfl, rfl, h⟩

section
variable {α : Type} {answer : Except Error DefinedClass} {f : DefinedClass → α}

theorem DefinedClass.exists_of_map_eq_ok {a : α} (h : answer.map f = .ok a) :
    ∃ c, answer = .ok c ∧ f c = a := by
  cases answer with
  | error e => cases h
  | ok c => exact ⟨c, rfl, Except.ok.inj h⟩

theorem DefinedClass.eq_error_of_map {e : Error} (h : answer.map f = .error e) :
    answer = .error e := by
  cases answer with
  | error cause => rw [Except.error.inj h]
  | ok c => cases h

end

/-- What a selective loader answers for a class that it takes on itself: `found` is what its class
path finds. -/
def SelectiveLoader.ownAnswer (loader : SelectiveLoader) (id : LoaderId) (modify : Bool)
    (name : String) (found : Except Error (Option ClassFile)) (table : ClassTable)
    (handle : ClassHandle) : Except Error DefinedClass :=
  match found with
  | .error e => .error e
  | .ok none => .error (.classNotFound name)
  | .ok (some file) =>
    let context : Transformer.Context := ⟨name, id, loader.suppressStatic.matchAny name⟩
    match if modify then (loader.chain.apply file context).2 else .ok file with
    | .error e => .error e
    | .ok result => (Definition.whole name result.bytes loader.domain).classIn table id handle

/-- A class that is defined differs in its identity at most where the name is free alike. -/
theorem Definition.map_content_classIn_congr (d : Definition) {table table' : ClassTable}
    (h : (table.find? d.name).map DefinedClass.content =
      (table'.find? d.name).map DefinedClass.content)
    (owner : LoaderId) (handle handle' : ClassHandle) :
    (d.classIn table owner handle).map DefinedClass.content =
      (d.classIn table' owner handle').map DefinedClass.content := by
  have hhas : table.has d.name = table'.has d.name := by
    simpa only [Keyed.has, Option.isSome_map] using congrArg Option.isSome h
  rw [classIn, classIn, hhas]
  split
  · rfl
  · split
    · rfl
    · rfl

theorem SelectiveLoader.map_content_ownAnswer_congr (loader : SelectiveLoader) {name : String}
    {table table' : ClassTable}
    (h : (table.find? name).map DefinedClass.content = (table'.find? name).map DefinedClass.content)
    (id : LoaderId) (modify : Bool) (found : Except Error (Option ClassFile))
    (handle handle' : ClassHandle) :
    (loader.ownAnswer id modify name found table handle).map DefinedClass.content =
      (loader.ownAnswer id modify name found table' handle').map DefinedClass.content := by
  simp only [ownAnswer]
  split
  · rfl
  · rfl
  · split
    · rfl
    · next made _ =>
      exact (Definition.whole name made.bytes loader.domain).map_content_classIn_congr h _ _ _

namespace Session

variable {s t : Session} {id : LoaderId} {loader : SelectiveLoader} {name : String}

theorem answer_loadOwned (id : LoaderId) (loader : SelectiveLoader) (modify : Bool)
    (name : String) (s : Session) : (loadOwned id loader modify name s).1 =
      loader.ownAnswer id modify name ((s.classPathOf loader.entries).find s.files name)
        (s.tableOf id) ⟨s.nextHandle⟩ := by
  rcases hfind : (s.classPathOf loader.entries).find s.files name with e | _ | file
  · rw [loadOwned, hfind]
    rfl
  · rw [loadOwned, hfind]
    rfl
  · cases modify with
    | true =>
      rw [loadOwned_of_find hfind]
      simp only [SelectiveLoader.ownAnswer, if_true]
      cases (loader.chain.apply file ⟨name, id, loader.suppressStatic.matchAny name⟩).2 with
      | error _ => rfl
      | ok changed => exact answer_defineOwned .transformed changed
    | false =>
      simp only [loadOwned, hfind, SelectiveLoader.ownAnswer, Bool.false_eq_true, if_false]
      exact answer_defineOwned .unmodified file

/-! ### Sessions that agree -/

/-- Two sessions have the same loader under an identity, with the same on its class path. -/
structure SameAt (id : LoaderId) (s t : Session) : Prop where
  loader : t.loader? id = s.loader? id
  classPath : ∀ l, s.loader? id = some l → t.classPathOf l.entries = s.classPathOf l.entries

theorem SameAt.tableOf_eq (h : SameAt id s t) : t.tableOf id = s.tableOf id := by
  rw [tableOf, h.loader, tableOf]

theorem answer_loadFromHost_congr {host : HostLoader} (hfiles : t.files = s.files)
    (hnext : t.nextHandle = s.nextHandle)
    (hclassPath : t.classPathOf host.entries = s.classPathOf host.entries) :
    (loadFromHost id host name t).1 = (loadFromHost id host name s).1 := by
  rw [loadFromHost, loadFromHost, hclassPath, hfiles, hnext]
  split
  · rfl
  · split
    · rfl
    · rfl
    · split
      · rfl
      · rfl

/-- A selective loader leaves a name to others, and another one leaves it to the same. -/
structure Leaves (name : String) (loader twin : SelectiveLoader) : Prop where
  interceptors : twin.interceptors = loader.interceptors
  unclaimed : loader.interceptors.find? (·.claims name) = none →
    loader.policy.decide name = .defer ∧ twin.policy.decide name = .defer ∧
      twin.deferred = loader.deferred

/-- Two sessions treat a name alike at a loader: they have the same loader there, or in both of them
it has no such class and leaves the name to the same others. -/
inductive Alike (name : String) (id : LoaderId) (s t : Session) : Prop
  | same (h : SameAt id s t)
  | leaving {loader twin : SelectiveLoader} (here : s.loader? id = some (.selective loader))
    (there : t.loader? id = some (.selective twin)) (free : loader.table.find? name = none)
    (free' : twin.table.find? name = none) (leaves : Leaves name loader twin)

theorem answer_findSelective_of_leaves {ask : Asking} {twin : SelectiveLoader}
    (here : s.loader? id = some (.selective loader)) (h : Leaves name loader twin)
    (hbelow : ∀ below, AsksFor s name id below → (ask below name t).1 = (ask below name s).1) :
    (findSelective ask id twin name t).1 = (findSelective ask id loader name s).1 := by
  cases hfirst : loader.interceptors.find? (·.claims name) with
  | some first =>
    have hfirst' : twin.interceptors.find? (·.claims name) = some first := by
      rw [h.interceptors, hfirst]
    rw [findSelective_of_claim hfirst, findSelective_of_claim hfirst']
    cases first with
    | route route => exact hbelow _ (.routed here hfirst)
    | refuse _ _ => rfl
  | none =>
    obtain ⟨hdefer, hdefer', htarget⟩ := h.unclaimed hfirst
    have hfirst' : twin.interceptors.find? (·.claims name) = none := by
      rw [h.interceptors, hfirst]
    rw [findSelective_of_defer hfirst hdefer, findSelective_of_defer hfirst' hdefer',
      answer_loadDeferred, answer_loadDeferred, htarget]
    exact hbelow _ (.deferred here hfirst hdefer)

/-- Two sessions answer a load alike if they treat the name alike at the loaders on its way. By
induction on how many loaders may ask each other in turn. -/
theorem answer_congr (hfiles : t.files = s.files) (hnext : t.nextHandle = s.nextHandle)
    (depth : Nat) (id : LoaderId) (h : ∀ passed, Reaches s name id passed → Alike name passed s t) :
    (loadWithin depth id name t).1 = (loadWithin depth id name s).1 := by
  induction depth generalizing id with
  | zero => rfl
  | succ depth ih =>
    have hbelow : ∀ below, AsksFor s name id below →
        (loadWithin depth below name t).1 = (loadWithin depth below name s).1 :=
      fun below hasks => ih below fun passed hreach => h passed (hreach.head hasks)
    rw [loadWithin]
    cases h id .refl with
    | leaving here there free free' leaves =>
      rw [loadAsking_of_free _ here free, loadAsking_of_free _ there free']
      exact answer_findSelective_of_leaves here leaves hbelow
    | same hself =>
      rw [loadAsking, loadAsking, hself.loader]
      cases here : s.loader? id with
      | none => rfl
      | some l =>
        have hclassPath := hself.classPath l here
        cases l with
        | host host => exact answer_loadFromHost_congr hfiles hnext hclassPath
        | resources _ => rfl
        | selective loader =>
          simp only [loadFromSelective]
          split
          · rfl
          · by_cases hleaves : Leaves name loader loader
            · exact answer_findSelective_of_leaves here hleaves hbelow
            · -- what is not left to others is the loader's own
              have hown : loader.interceptors.find? (·.claims name) = none ∧
                  loader.policy.decide name ≠ .defer := by
                by_contra hother
                exact hleaves ⟨rfl, fun hnone => by
                  have hdefer := not_not.mp fun hne => hother ⟨hnone, hne⟩
                  exact ⟨hdefer, hdefer, rfl⟩⟩
              rw [findSelective_of_own hown.1 hown.2, findSelective_of_own hown.1 hown.2,
                answer_loadOwned, answer_loadOwned, hself.tableOf_eq, hfiles, hnext]
              exact congrArg (fun cp : ClassPath => loader.ownAnswer id _ name
                (cp.find s.files name) (s.tableOf id) ⟨s.nextHandle⟩) hclassPath

end Session

end Understudy
