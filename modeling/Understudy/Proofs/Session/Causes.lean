import Understudy.Proofs.Session.Changes
import Understudy.Proofs.Session.Resolution

/-!
What a load can fail for. Whoever it is that fails in the end, its class path could not be read or
lacks the class, a unit of its chain failed, what it found or made is a class of another name, or an
interceptor of its own refused the name. A loader enters a class only if it had none of the name
when it was asked, and whatever it does in between enters none; so no load meets a name that is
taken. Main statements: `fault_of_load` and `run_load_ne_duplicateDefinition`.
-/

namespace Understudy

theorem Loader.interceptors_congr {l l' : Loader} (h : l.directions = l'.directions) :
    l.interceptors = l'.interceptors := by
  cases l <;> cases l' <;> simp_all [directions, interceptors]

namespace Session

/-- Some loader has an interceptor that refuses names with this failure. -/
def Refuses (s : Session) (e : Error) : Prop :=
  ∃ id l refused, s.loader? id = some l ∧ .refuse refused e ∈ l.interceptors

/-- What the load of a name may fail for. -/
inductive LoadFault (s : Session) (name : String) : Error → Prop
  | unreadable {e : Error} (reading : e.OfReading) : LoadFault s name e
  | missing : LoadFault s name (.classNotFound name)
  | failed (unit : String) (cause : Error) : LoadFault s name (.transformation name unit cause)
  | misnamed (found : String) : LoadFault s name (.classNameMismatch name found)
  | refused {e : Error} (refuses : Refuses s e) : LoadFault s name e

variable {s t : Session} {id : LoaderId} {name : String} {loader : SelectiveLoader} {e : Error}

/-! ### The faults of one loader -/

/-- Where the name is free, only the bytes can be wrong. -/
theorem fault_of_classIn {d : Definition} {table : ClassTable} {owner : LoaderId}
    {handle : ClassHandle} (hfree : table.find? d.name = none)
    (h : d.classIn table owner handle = .error e) : LoadFault s d.name e := by
  rw [Definition.classIn] at h
  split at h
  · next hfile =>
    cases h
    rcases Definition.fault_of_classFile hfile with hreading | ⟨found, rfl⟩
    · exact .unreadable hreading
    · exact .misnamed found
  · rw [Keyed.has, hfree] at h
    cases h

theorem fault_of_loadOwned (hfree : (s.tableOf id).find? name = none)
    (h : (loadOwned id loader (loader.policy.shouldModify name) name s).1 = .error e) :
    LoadFault s name e := by
  rw [answer_loadOwned] at h
  rcases hfind : (s.classPathOf loader.entries).find s.files name with cause | _ | file
  · rw [hfind] at h
    cases h
    exact .unreadable (ClassPath.ofReading_of_find hfind)
  · rw [hfind] at h
    cases h
    exact .missing
  · rw [hfind, SelectiveLoader.ownAnswer_of_found] at h
    cases hremake : loader.remake id name file with
    | error cause =>
      rw [hremake] at h
      cases h
      obtain ⟨unit, cause, rfl⟩ := SelectiveLoader.exists_of_remake hremake
      exact .failed unit cause
    | ok made =>
      rw [hremake] at h
      exact fault_of_classIn (d := .whole name made.bytes loader.domain) hfree h

theorem fault_of_loadFromHost {host : HostLoader}
    (h : (loadFromHost id host name s).1 = .error e) : LoadFault s name e := by
  rw [loadFromHost] at h
  split at h
  · cases h
  · split at h
    · next hfind =>
      cases h
      exact .unreadable (ClassPath.ofReading_of_find hfind)
    · cases h
      exact .missing
    · split at h
      · cases h
      · cases h
        exact .misnamed _

/-! ### Loads -/

theorem fault_of_findSelective {ask : Asking}
    (hask : ∀ below, AsksFor s name id below → (ask below name s).1 = .error e → LoadFault s name e)
    (here : s.loader? id = some (.selective loader)) (hfree : loader.table.find? name = none)
    (h : (findSelective ask id loader name s).1 = .error e) : LoadFault s name e := by
  cases hfirst : loader.interceptors.find? (·.claims name) with
  | some first =>
    rw [findSelective_of_claim hfirst] at h
    cases first with
    | route route => exact hask _ (.routed here hfirst) h
    | refuse refused cause =>
      cases h
      exact .refused ⟨id, _, refused, here, List.mem_of_find?_eq_some hfirst⟩
  | none =>
    by_cases hdefer : loader.policy.decide name = .defer
    · rw [findSelective_of_defer hfirst hdefer, answer_loadDeferred] at h
      exact hask _ (.deferred here hfirst hdefer) h
    · rw [findSelective_of_own hfirst hdefer] at h
      rw [← tableOf_of_selective here] at hfree
      exact fault_of_loadOwned hfree h

/-- By induction on how many loaders may ask each other in turn. -/
theorem fault_of_loadWithin (depth : Nat) (id : LoaderId)
    (h : (loadWithin depth id name s).1 = .error e) : LoadFault s name e := by
  induction depth generalizing id with
  | zero =>
    cases h
    exact .missing
  | succ depth ih =>
    rw [loadWithin] at h
    rcases here : s.loader? id with _ | ⟨host | loader | _⟩
    · rw [loadAsking, here] at h
      cases h
      exact .missing
    · rw [loadAsking, here] at h
      exact fault_of_loadFromHost h
    · cases htable : loader.table.find? name with
      | some c =>
        rw [loadAsking_of_find? (by rwa [tableOf_of_selective here])] at h
        cases h
      | none =>
        rw [loadAsking_of_free _ here htable] at h
        exact fault_of_findSelective (fun below _ => ih below) here htable h
    · rw [loadAsking, here] at h
      cases h
      exact .missing

/-- Whatever a load fails for, it is one of these. -/
theorem fault_of_load (h : (load id name s).1 = .error e) : LoadFault s name e :=
  fault_of_loadWithin s.loaders.length id h

theorem LoadFault.ne_duplicateDefinition (h : LoadFault s name e)
    (hrefusals : ∀ taken, ¬ Refuses s (.duplicateDefinition taken)) (taken : String) :
    e ≠ .duplicateDefinition taken := by
  cases h with
  | unreadable reading => exact reading.ne_duplicateDefinition taken
  | missing => nofun
  | failed _ _ => nofun
  | misnamed _ => nofun
  | refused refuses =>
    rintro rfl
    exact hrefusals taken refuses

/-! ### Runs -/

/-- An interceptor that refuses was there before a request. -/
theorem SameDirections.refuses (hsame : SameDirections s t) (h : Refuses t e) : Refuses s e := by
  obtain ⟨id, l, refused, there, hmem⟩ := h
  have hid := hsame id
  rw [there, Option.map_some, eq_comm, Option.map_eq_some_iff] at hid
  obtain ⟨l', here, hdirections⟩ := hid
  exact ⟨id, l', refused, here, Loader.interceptors_congr hdirections ▸ hmem⟩

/-- An interceptor that refuses was there before a change, or the change adds it. -/
theorem refuses_of_change {change : Change} (h : Refuses (change.perform s) e) :
    Refuses s e ∨ ∃ id refused, change = .addInterceptor id (.refuse refused e) := by
  obtain ⟨id, l, refused, there, hmem⟩ := h
  have hchange := ofChange_perform change s id
  rw [there] at hchange
  cases before : s.loader? id with
  | none =>
    rw [before] at hchange
    cases hchange with
    | added new =>
      rw [new.interceptors] at hmem
      cases hmem
  | some l' =>
    rw [before] at hchange
    cases hchange with
    | adjusted adjusted =>
      rcases adjusted.interceptors _ hmem with hbefore | hadded
      · exact .inl ⟨id, l', refused, before, hbefore⟩
      · exact .inr ⟨id, refused, hadded⟩

/-- By induction on the run. -/
theorem refuses_of_run {ops : List Operation} (h : Refuses (run ops s).2 e) :
    Refuses s e ∨ ∃ id refused, .change (.addInterceptor id (.refuse refused e)) ∈ ops := by
  induction ops generalizing s with
  | nil => exact .inl h
  | cons op rest ih =>
    cases op with
    | request request =>
      rcases ih (s := (request.perform s).2) h with hnext | ⟨id, refused, hmem⟩
      · exact .inl ((sameDirections_perform request s).refuses hnext)
      · exact .inr ⟨id, refused, List.mem_cons_of_mem _ hmem⟩
    | change change =>
      rcases ih (s := change.perform s) h with hnext | ⟨id, refused, hmem⟩
      · rcases refuses_of_change hnext with hbefore | ⟨id, refused, rfl⟩
        · exact .inl hbefore
        · exact .inr ⟨id, refused, List.mem_cons_self⟩
      · exact .inr ⟨id, refused, List.mem_cons_of_mem _ hmem⟩

theorem not_refuses_start (files : FileTree) (e : Error) : ¬ Refuses (start files) e := by
  rintro ⟨id, l, refused, here, hmem⟩
  have hlast : l = .host { entries := [] } := List.mem_singleton.mp (List.mem_of_getElem? here)
  rw [hlast] at hmem
  cases hmem

/-- No load of any session is refused as a duplicate, unless an interceptor has been put in that
refuses names as duplicates. -/
theorem run_load_ne_duplicateDefinition (files : FileTree) {ops : List Operation}
    (hrefusals : ∀ id refused taken,
      .change (.addInterceptor id (.refuse refused (.duplicateDefinition taken))) ∉ ops)
    (id : LoaderId) (name taken : String) :
    ((run ops (start files)).2.load id name).1 ≠ .error (.duplicateDefinition taken) := by
  intro h
  refine (fault_of_load h).ne_duplicateDefinition (fun other hrefuses => ?_) taken rfl
  rcases refuses_of_run hrefuses with hstart | ⟨at', refused, hmem⟩
  · exact not_refuses_start files _ hstart
  · exact hrefusals at' refused other hmem

/-- A selective loader modifies the class `A`, which is on its class path, and has a class of that
name that was defined directly. -/
def insisting : List Operation :=
  [.change (.addEntry (.single "A" (Stub.encode { name := "A" }))),
    .change (.addSelective { prepare := Patterns.ofStrings ["A"] }),
    .change (.appendTo ⟨1⟩ ⟨0⟩),
    .request (.define ⟨1⟩ definitionOfA)]

/-- To find the class there, or to define it once more, is refused as a duplicate. To load it is
not. -/
theorem run_load_ne_duplicateDefinition_insisting :
    let s := (run insisting (start .empty)).2
    (s.find ⟨1⟩ "A").1 = .error (.duplicateDefinition "A") ∧
      (s.define ⟨1⟩ definitionOfA).1 = .error (.duplicateDefinition "A") ∧
      ∀ taken, (s.load ⟨1⟩ "A").1 ≠ .error (.duplicateDefinition taken) := by
  intro s
  have hrefusals : ∀ id refused taken,
      .change (.addInterceptor id (.refuse refused (.duplicateDefinition taken))) ∉ insisting := by
    simp [insisting]
  exact ⟨by decide +kernel, by decide +kernel,
    run_load_ne_duplicateDefinition .empty hrefusals ⟨1⟩ "A"⟩

end Session

end Understudy
