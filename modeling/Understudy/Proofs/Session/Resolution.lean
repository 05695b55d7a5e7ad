import Understudy.Proofs.Session.Consistency
import Understudy.Proofs.Session.Permanence
import Understudy.Proofs.Session.Repetition
import Understudy.Proofs.Session.Serving

/-!
What a name stands for at a loader. Once a loader has answered a name, the class lies in its own
table or with a loader at the end of those that turn to each other for the name, and loading the
name again comes to the same place. Only a direct definition of the name changes that, and only
while the class is another loader's; from then on the name is the loader's own for good, and no
other definition of it succeeds.

All of this is about loaders that are hosts or selective, or have no classes, and about interceptors
that route names to such loaders or refuse them. Main statement: `run_answers_agree`.
-/

namespace Understudy

theorem Loader.directions_setup (l : Loader) : l.setup.directions = l.directions := by
  cases l <;> rfl

namespace Session

/-- A loader has a class under a name, in its own table or with the one that it turns to. -/
inductive Resolves (s : Session) (name : String) : LoaderId → DefinedClass → Prop
  | found {id : LoaderId} {c : DefinedClass} (lies : (s.tableOf id).find? name = some c) :
    Resolves s name id c
  | turned {id below : LoaderId} {c : DefinedClass} (turns : TurnsTo s name id below)
    (rest : Resolves s name below c) : Resolves s name id c

/-- Every loader is directed as before. -/
def SameDirections (s t : Session) : Prop :=
  ∀ id, (t.loader? id).map Loader.directions = (s.loader? id).map Loader.directions

variable {s t : Session} {id below : LoaderId} {name other : String} {c : DefinedClass}

/-- A loader has a class to answer wherever it has one. -/
theorem Resolves.answer_load (h : Resolves s name id c) : (load id name s).1 = .ok c := by
  induction h with
  | found lies => rw [load_of_find? lies]
  | turned turns _ ih => rw [answer_load_of_turnsTo turns, ih]

/-- The class lies in the table of the loader that it belongs to. -/
theorem Resolves.find?_tableOf (h : Resolves s name id c) (howned : Owned s) :
    (s.tableOf c.loader).find? name = some c := by
  induction h with
  | found lies => rwa [(howned _ _ _ lies).2]
  | turned _ _ ih => exact ih

/-! ### Sessions in which names stand for the same -/

theorem SameDirections.symm (h : SameDirections s t) : SameDirections t s :=
  fun id => (h id).symm

theorem AsksFor.congr (hasks : AsksFor s name id below) (h : SameDirections s t) :
    AsksFor t name id below := by
  have hsame := h id
  cases hasks with
  | routed here first =>
    rw [here] at hsame
    obtain ⟨l, there, heq⟩ := Option.map_eq_some_iff.mp hsame
    cases l with
    | host _ => cases heq
    | resources _ => cases heq
    | selective loader =>
      simp only [Loader.directions, Option.some.injEq, Prod.mk.injEq] at heq
      exact .routed there (heq.1 ▸ first)
  | deferred here unclaimed decided =>
    rw [here] at hsame
    obtain ⟨l, there, heq⟩ := Option.map_eq_some_iff.mp hsame
    cases l with
    | host _ => cases heq
    | resources _ => cases heq
    | selective loader =>
      simp only [Loader.directions, Option.some.injEq, Prod.mk.injEq] at heq
      obtain ⟨hinterceptors, hpolicy, hdeferred⟩ := heq
      rw [← hdeferred]
      exact .deferred there (hinterceptors ▸ unclaimed) (hpolicy ▸ decided)

/-- A name that no interceptor claims is asked for because the policy defers it. -/
theorem AsksFor.decide_eq (hasks : AsksFor s name id below) {loader : SelectiveLoader}
    (here : s.loader? id = some (.selective loader))
    (unclaimed : loader.interceptors.find? (·.claims name) = none) :
    loader.policy.decide name = .defer := by
  cases hasks with
  | routed there first =>
    rw [here] at there
    cases there
    rw [unclaimed] at first
    cases first
  | deferred there _ decided =>
    rw [here] at there
    cases there
    exact decided

/-- A name stands for the same where everybody is directed alike and nobody has got another class
of it. -/
theorem Resolves.congr (h : Resolves s name id c) (hdirections : SameDirections s t)
    (htables : ∀ id, (t.tableOf id).find? name = (s.tableOf id).find? name) :
    Resolves t name id c := by
  induction h with
  | found lies => exact .found ((htables _).trans lies)
  | turned turns _ ih =>
    exact .turned ⟨(htables _).trans turns.free, turns.asks.congr hdirections⟩ ih

/-! ### Searches -/

section
variable {among : LoaderId → Prop} {success : Bool}

theorem Searches.sameDirections (h : Searches among name success s t) : SameDirections s t := by
  intro id
  have hsetup := congrArg (Option.map Loader.directions) (h.map_setup_eq id)
  simpa only [Option.map_map, Function.comp_def, Loader.directions_setup] using hsetup

/-- A search for one name leaves what is found under another one. -/
theorem SearchStep.find?_tableOf_of_ne (h : SearchStep among name success s t) (hne : name ≠ other)
    (id : LoaderId) : (t.tableOf id).find? other = (s.tableOf id).find? other := by
  cases h with
  | counted _ _ => rw [tableOf_count]
  | passed _ _ _ _ _ => rfl
  | @entered c _ _ named _ _ _ takes =>
    exact find?_enter_of_ne takes.keepsClasses (.inr (named ▸ hne))

theorem Searches.find?_tableOf_of_ne (h : Searches among name success s t) (hne : name ≠ other)
    (id : LoaderId) : (t.tableOf id).find? other = (s.tableOf id).find? other := by
  induction h with
  | refl => rfl
  | tail _ step ih => rw [step.find?_tableOf_of_ne hne, ih]

/-- What a loader asks others for it does not enter. -/
theorem SearchStep.find?_tableOf_of_asksFor (h : SearchStep among name success s t)
    (hasks : AsksFor s name id below) :
    (t.tableOf id).find? name = (s.tableOf id).find? name := by
  cases h with
  | counted _ _ => rw [tableOf_count]
  | passed _ _ _ _ _ => rfl
  | @entered c _ _ named _ _ _ takes =>
    refine congrArg (Keyed.find? · name) (tableOf_enter_of_ne s fun hid => ?_)
    -- the loader would have taken on a name that it asks others for
    subst hid named
    obtain ⟨loader, here⟩ := hasks.exists_selective
    cases takes with
    | host there _ _ =>
      rw [here] at there
      cases there
    | selective there unclaimed own => exact own (hasks.decide_eq there unclaimed)

theorem Searches.find?_tableOf_of_asksFor (h : Searches among name success s t)
    (hasks : AsksFor s name id below) :
    (t.tableOf id).find? name = (s.tableOf id).find? name := by
  induction h with
  | refl => rfl
  | tail before step ih =>
    rw [step.find?_tableOf_of_asksFor (hasks.congr (Searches.sameDirections before)), ih]

end

/-! ### Loads -/

section
variable {ask : Asking} {loader : SelectiveLoader}

/-- A loader that asks another one counts at most, once it has the answer. -/
theorem AsksFor.session_findSelective (hasks : AsksFor s name id below)
    (here : s.loader? id = some (.selective loader)) :
    (findSelective ask id loader name s).2 = (ask below name s).2 ∨
      ∃ event, (findSelective ask id loader name s).2 = (ask below name s).2.count id event := by
  cases hasks with
  | routed there first =>
    rw [here] at there
    cases there
    rw [findSelective_of_claim first]
    exact .inr ⟨.intercepted, rfl⟩
  | deferred there unclaimed decided =>
    rw [here] at there
    cases there
    rw [findSelective_of_defer unclaimed decided, loadDeferred]
    rcases ask loader.deferred name s with ⟨e | c, t⟩
    · by_cases hmissing : e.isNotFound = true
      · exact .inr ⟨.notFound, if_pos hmissing⟩
      · exact .inl (if_neg hmissing)
    · exact .inr ⟨.deferred, rfl⟩

theorem sameDirections_count (s : Session) (id : LoaderId) (event : LoadEvent) :
    SameDirections s (s.count id event) := by
  refine fun other => map_updateLoader Loader.directions s id other fun l => ?_
  cases l <;> rfl

theorem Resolves.count (h : Resolves s name id c) (counting : LoaderId) (event : LoadEvent) :
    Resolves (s.count counting event) name id c :=
  h.congr (sameDirections_count s counting event) fun _ => by rw [tableOf_count]

/-- A loader that asks nobody answers classes of its own. -/
theorem loader_of_loadAsking (howned : Owned s) (halone : ∀ below, ¬ AsksFor s name id below)
    (hanswer : (loadAsking ask id name s).1 = .ok c) : c.loader = id := by
  rcases here : s.loader? id with _ | ⟨host | loader | _⟩
  · rw [loadAsking, here] at hanswer
    cases hanswer
  · have hload : (load id name s).1 = .ok c := by
      rw [loadAsking, here] at hanswer
      rwa [load_of_host here]
    exact loader_of_load_host howned here hload
  · cases htable : loader.table.find? name with
    | some d =>
      have hfound : (s.tableOf id).find? name = some d := by rwa [tableOf_of_selective here]
      rw [loadAsking_of_find? hfound] at hanswer
      obtain rfl := Except.ok.inj hanswer
      exact (howned id name d hfound).2
    | none =>
      rw [loadAsking_of_free ask here htable] at hanswer
      cases hfirst : loader.interceptors.find? (·.claims name) with
      | some first =>
        rw [findSelective_of_claim hfirst] at hanswer
        cases first with
        | route route => exact absurd (.routed here hfirst) (halone route.target)
        | refuse _ _ => cases hanswer
      | none =>
        by_cases hdefer : loader.policy.decide name = .defer
        · exact absurd (.deferred here hfirst hdefer) (halone loader.deferred)
        · rw [findSelective_of_own hfirst hdefer, answer_loadOwned] at hanswer
          exact loader_of_ownAnswer hanswer
  · rw [loadAsking, here] at hanswer
    cases hanswer

theorem resolves_loadAsking (hsound : SoundAsking ask) (hsearches : SearchesOnTheWay ask)
    (hask : ∀ below c, (ask below name s).1 = .ok c → Resolves (ask below name s).2 name below c)
    (howned : Owned s) (hanswer : (loadAsking ask id name s).1 = .ok c) :
    Resolves (loadAsking ask id name s).2 name id c := by
  by_cases hturns : ∃ below, TurnsTo s name id below
  · obtain ⟨below, hfree, hasks⟩ := hturns
    obtain ⟨loader, here⟩ := hasks.exists_selective
    have hfree' : loader.table.find? name = none := by rwa [tableOf_of_selective here] at hfree
    have hsearch : Searches (Reaches s name id) name (findSelective ask id loader name s).1.isOk s
        (findSelective ask id loader name s).2 := searches_findSelective hsearches here
    rw [loadAsking_of_free ask here hfree'] at hanswer ⊢
    refine .turned ⟨?_, hasks.congr hsearch.sameDirections⟩ ?_
    · rw [hsearch.find?_tableOf_of_asksFor hasks, hfree]
    · rw [hasks.answer_findSelective here] at hanswer
      rcases hasks.session_findSelective here with hsame | ⟨event, hcount⟩
      · rw [hsame]
        exact hask below c hanswer
      · rw [hcount]
        exact (hask below c hanswer).count id event
  · -- the class was in the loader's table, or the loader has entered it
    have hkept := ((sound_loadAsking hsound id name s).kept howned c hanswer).2
    have hloader : c.loader = id := by
      cases hfound : (s.tableOf id).find? name with
      | some d =>
        rw [loadAsking_of_find? hfound] at hanswer
        obtain rfl := Except.ok.inj hanswer
        exact (howned id name d hfound).2
      | none =>
        exact loader_of_loadAsking howned (fun below hasks => hturns ⟨below, hfound, hasks⟩) hanswer
    rw [hloader] at hkept
    exact .found hkept

/-- Once a name was answered, the loader has the class that was the answer. By induction on how many
loaders may ask each other in turn. -/
theorem resolves_loadWithin (howned : Owned s) (depth : Nat) (id : LoaderId) (c : DefinedClass)
    (hanswer : (loadWithin depth id name s).1 = .ok c) :
    Resolves (loadWithin depth id name s).2 name id c := by
  induction depth generalizing id c with
  | zero => cases hanswer
  | succ depth ih =>
    exact resolves_loadAsking (sound_loadWithin depth) (searchesOnTheWay_loadWithin depth) ih
      howned hanswer

end

/-! ### Requests to a loader -/

/-- The operation asks a loader for a class or defines one there directly. -/
inductive CallsOn (id : LoaderId) : Operation → Prop
  | load (name : String) : CallsOn id (.request (.load id name))
  | define (d : Definition) : CallsOn id (.request (.define id d))

/-- What a direct definition that succeeds does to the tables: it enters the class, which belongs to
the loader and bears the name asked for, and the name was free. -/
theorem tables_of_define {d : Definition} (hanswer : (define id d s).1 = .ok c) :
    s.keepsClasses c.loader = true ∧ c.loader = id ∧ c.file.name = d.name ∧
      (s.tableOf id).find? d.name = none ∧
      ∀ other, (define id d s).2.tableOf other = (s.enter c).tableOf other := by
  obtain ⟨howner, hclass, hafter⟩ := define_of_ok hanswer
  obtain ⟨hshape, hfile, hfree⟩ := Definition.classIn_eq_ok hclass
  obtain ⟨-, -, hname⟩ := Definition.classFile_eq_ok hfile
  have hloader : c.loader = id := by rw [hshape]
  refine ⟨hloader ▸ howner, hloader, hname, hfree, fun other => ?_⟩
  rcases hafter with hafter | hafter
  · rw [hafter]
  · rw [hafter, (sameTables_keepBytes (s.enter c) id c).tables]

theorem find?_of_define {d : Definition} (hanswer : (define id d s).1 = .ok c) :
    ((define id d s).2.tableOf id).find? d.name = some c := by
  obtain ⟨howner, hloader, hname, -, htables⟩ := tables_of_define hanswer
  rw [htables, ← hloader, ← hname]
  exact find?_enter_self howner

/-- A direct definition leaves what is found under other names. -/
theorem find?_tableOf_define_of_ne {d : Definition} (hne : d.name ≠ name) (other : LoaderId) :
    ((define id d s).2.tableOf other).find? name = (s.tableOf other).find? name := by
  cases hanswer : (define id d s).1 with
  | error e => rw [define_of_error hanswer]
  | ok c =>
    obtain ⟨howner, -, hname, -, htables⟩ := tables_of_define hanswer
    rw [htables]
    exact find?_enter_of_ne howner (.inr (hname ▸ hne))

/-- A name that is taken is not defined again. It is refused for that, if nothing else is wrong. -/
theorem define_of_find? {d : Definition} (h : (s.tableOf id).find? d.name = some c) :
    ∃ e, (define id d s).1 = .error e ∧
      (e = .duplicateDefinition d.name ↔ ∃ file, d.classFile = .ok file) := by
  have hhas : (s.tableOf id).has d.name = true := by rw [Keyed.has, h]; rfl
  obtain ⟨e, hclass, hiff⟩ := Definition.classIn_of_has hhas id ⟨s.nextHandle⟩
  refine ⟨e, ?_, hiff⟩
  have hdefine : defineInTable id d s = (.error e, s) := by rw [defineInTable, hclass]
  rcases here : s.loader? id with _ | ⟨_ | _ | _⟩
  · rw [tableOf, here] at h
    cases h
  · simp only [define, here, hdefine]
  · simp only [define, here, hdefine]
  · rw [tableOf, here] at h
    cases h

theorem sameDirections_define (id : LoaderId) (d : Definition) (s : Session) :
    SameDirections s (define id d s).2 := by
  have hentered : ∀ c, SameDirections s (s.enter c) := fun c other =>
    map_updateLoader Loader.directions s c.loader other fun l => l.directions_mapTable _
  have hkept : ∀ c, SameDirections (s.enter c) ((s.enter c).keepBytes id c) := fun c other =>
    map_updateLoader Loader.directions ((s.enter c).addEntry _).2 id other
      fun l => l.directions_mapEntries _
  cases hanswer : (define id d s).1 with
  | error e =>
    rw [define_of_error hanswer]
    exact fun _ => rfl
  | ok c =>
    obtain ⟨-, -, hafter | hafter⟩ := define_of_ok hanswer
    · rw [hafter]
      exact hentered c
    · rw [hafter]
      exact fun other => (hkept c other).trans (hentered c other)

theorem sameDirections_perform (request : Request) (s : Session) :
    SameDirections s (request.perform s).2 := by
  cases request with
  | load id name => exact (searches_load id name s).sameDirections
  | find id name => exact (searches_find id name s).sameDirections
  | define id d => exact sameDirections_define id d s

theorem resolves_perform (howned : Owned s) {request : Request}
    (hcalls : CallsOn id (.request request)) (hanswer : (request.perform s).1 = .ok c) :
    Resolves (request.perform s).2 request.name id c := by
  cases hcalls with
  | load other => exact resolves_loadWithin howned _ id c hanswer
  | define d => exact .found (find?_of_define hanswer)

/-- After a request the name stands for the same class still, or for one of this loader that has
been defined in the place of another one's. -/
theorem Resolves.perform (h : Resolves s name id c) (howned : Owned s) {request : Request}
    (hcalls : CallsOn id (.request request)) :
    (Resolves (request.perform s).2 name id c ∧
      (request.name = name → ∀ c', (request.perform s).1 = .ok c' → c' = c)) ∨
    ∃ d c', request = .define id d ∧ d.name = name ∧ (request.perform s).1 = .ok c' ∧
      c.loader ≠ id ∧ c'.loader = id ∧ Resolves (request.perform s).2 name id c' := by
  cases hcalls with
  | load other =>
    have hsearch := searches_load id other s
    left
    by_cases hother : other = name
    · subst hother
      have hanswer := h.answer_load
      refine ⟨resolves_loadWithin howned _ id c hanswer, fun _ c' hc' => ?_⟩
      exact Except.ok.inj (hc'.symm.trans hanswer)
    · exact ⟨h.congr hsearch.sameDirections (hsearch.find?_tableOf_of_ne hother),
        fun heq => absurd heq hother⟩
  | define d =>
    by_cases hother : d.name = name
    · subst hother
      cases hanswer : (define id d s).1 with
      | error e =>
        left
        have hsame : Request.perform (.define id d) s = (.error e, s) := define_of_error hanswer
        rw [hsame]
        exact ⟨h, fun _ _ hc' => nomatch hc'⟩
      | ok c' =>
        right
        obtain ⟨-, hloader, -, hfree, -⟩ := tables_of_define hanswer
        have hfound := find?_of_define hanswer
        refine ⟨d, c', rfl, rfl, hanswer, fun howner => ?_, hloader, .found hfound⟩
        -- a class of the loader's own would take up the name
        have hkept := h.find?_tableOf howned
        rw [howner, hfree] at hkept
        cases hkept
    · left
      exact ⟨h.congr (sameDirections_define id d s) (find?_tableOf_define_of_ne hother),
        fun heq => absurd heq hother⟩

/-! ### Runs of them -/

/-- How a reply goes with a class that was answered for its name before, when the replies `since`
have come in between. -/
structure AgreesWith (id : LoaderId) (c : DefinedClass) (since : List Reply) (reply : Reply) :
    Prop where
  answer : ∀ c', reply.answer = .ok c' → c' = c ∨
    c.loader ≠ id ∧ c'.loader = id ∧
      ∃ d, ⟨.define id d, .ok c'⟩ ∈ since ++ [reply] ∧ d.name = reply.request.name
  refused : c.loader = id → ∀ d, reply.request = .define id d → ∃ e, reply.answer = .error e ∧
    (e = .duplicateDefinition d.name ↔ ∃ file, d.classFile = .ok file)

theorem Resolves.agreesWith_reply (h : Resolves s name id c) (howned : Owned s) {request : Request}
    (hcalls : CallsOn id (.request request)) (hname : request.name = name) :
    AgreesWith id c [] ⟨request, (request.perform s).1⟩ := by
  constructor
  · intro c' hc'
    rcases h.perform howned hcalls with
      ⟨-, hsame⟩ | ⟨d, redefined, rfl, hd, hanswer, hother, hown, -⟩
    · exact .inl (hsame hname c' hc')
    · obtain rfl : redefined = c' := Except.ok.inj (hanswer.symm.trans hc')
      exact .inr ⟨hother, hown, d, by rw [hanswer]; exact List.mem_singleton_self _, rfl⟩
  · rintro howner d hrequest
    have hfound := h.find?_tableOf howned
    subst hrequest hname
    rw [howner] at hfound
    exact define_of_find? hfound

/-- By induction on the run, which may change once what the name stands for. -/
theorem Resolves.agreesWith_run (h : Resolves s name id c) (hconsistent : Consistent s)
    {ops : List Operation} (hcalls : ∀ op ∈ ops, CallsOn id op) {since behind : List Reply}
    {reply : Reply} (hrun : (run ops s).1 = since ++ reply :: behind)
    (hname : reply.request.name = name) : AgreesWith id c since reply := by
  induction ops generalizing s c since with
  | nil => exact absurd hrun (by simp [run])
  | cons op rest ih =>
    obtain ⟨hop, hrest⟩ := List.forall_mem_cons.mp hcalls
    obtain ⟨request, rfl⟩ : ∃ request, op = .request request := by cases hop <;> exact ⟨_, rfl⟩
    have hconsistent' := hconsistent.grows (sound_perform request s).grows
    rw [run] at hrun
    cases since with
    | nil =>
      obtain ⟨hreply, -⟩ := List.cons.inj hrun
      rw [← hreply] at hname ⊢
      exact h.agreesWith_reply hconsistent.owned hop hname
    | cons first since =>
      obtain ⟨rfl, hlater⟩ := List.cons.inj hrun
      rcases h.perform hconsistent.owned hop with
        ⟨hkept, -⟩ | ⟨d, redefined, rfl, hd, hanswer, hother, hown, hnow⟩
      · obtain ⟨hsame, hrefused⟩ := ih hkept hconsistent' hrest hlater
        refine ⟨fun c' hc' => (hsame c' hc').imp_right ?_, hrefused⟩
        rintro ⟨hother, hown, d, hmem, hd⟩
        exact ⟨hother, hown, d, List.mem_cons_of_mem _ hmem, hd⟩
      · obtain ⟨hsame, -⟩ := ih hnow hconsistent' hrest hlater
        refine ⟨fun c' hc' => ?_, fun howner => absurd howner hother⟩
        rcases hsame c' hc' with rfl | ⟨hother', -, -⟩
        · have hmem : ⟨.define id d, .ok c'⟩ ∈
              ⟨.define id d, (Request.perform (.define id d) s).1⟩ :: since ++ [reply] := by
            rw [hanswer]
            exact List.mem_cons_self
          exact .inr ⟨hother, hown, d, hmem, hd.trans hname.symm⟩
        · exact absurd hown hother'

/-- Any two answers that a loader gives for a name, while it is asked for classes and classes are
defined there directly: the later one agrees with the earlier one. -/
theorem run_answers_agree (files : FileTree) (before : List Operation) {ops : List Operation}
    (hcalls : ∀ op ∈ ops, CallsOn id op) {earlier since later : List Reply} {first second : Reply}
    (hrun : (run ops (run before (start files)).2).1 =
      earlier ++ first :: (since ++ second :: later))
    (hname : second.request.name = first.request.name) (hfirst : first.answer = .ok c) :
    AgreesWith id c since second := by
  have hconsistent := (consistent_start files).grows (grows_run before (start files))
  generalize (run before (start files)).2 = s at hrun hconsistent
  induction ops generalizing s earlier with
  | nil => exact absurd hrun (by simp [run])
  | cons op rest ih =>
    obtain ⟨hop, hrest⟩ := List.forall_mem_cons.mp hcalls
    obtain ⟨request, rfl⟩ : ∃ request, op = .request request := by cases hop <;> exact ⟨_, rfl⟩
    have hconsistent' := hconsistent.grows (sound_perform request s).grows
    rw [run] at hrun
    cases earlier with
    | nil =>
      obtain ⟨rfl, hlater⟩ := List.cons.inj hrun
      have hresolves := resolves_perform hconsistent.owned hop hfirst
      exact hresolves.agreesWith_run hconsistent' hrest hlater hname
    | cons _ earlier => exact ih hrest _ (List.cons.inj hrun).2 hconsistent'

/-- A selective loader is set up to defer every name to a host, which has the class `A`. -/
def lending : List Operation :=
  [.change (.addEntry (.single "A" (Stub.encode { name := "A" }))),
    .change (.addHost [⟨0⟩]),
    .change (.addSelective {}),
    .change (.setDeferred ⟨2⟩ ⟨1⟩)]

/-- A definition of the class `A`. -/
def definitionOfA : Definition := .whole "A" (Stub.encode { name := "A" }) {}

/-- The class is loaded and defined, and then both once more. -/
def takingOver : List Operation :=
  [.request (.load ⟨2⟩ "A"), .request (.define ⟨2⟩ definitionOfA),
    .request (.load ⟨2⟩ "A"), .request (.define ⟨2⟩ definitionOfA)]

theorem callsOn_takingOver : ∀ op ∈ takingOver, CallsOn ⟨2⟩ op := by
  simp only [takingOver, List.forall_mem_cons, List.not_mem_nil, false_implies, implies_true,
    and_true]
  exact ⟨.load "A", .define _, .load "A", .define _⟩

/-- The second load answers what was defined before it, and the second definition is refused. -/
theorem run_answers_agree_takingOver :
    ∃ loaded defined again refused c,
      (run takingOver (run lending (start .empty)).2).1 = [loaded, defined, again, refused] ∧
      defined.answer = .ok c ∧ again.answer = .ok c ∧
      refused.answer = .error (.duplicateDefinition "A") := by
  have hreplies : ∀ s, ∃ loaded defined again refused, (run takingOver s).1 =
      [⟨.load ⟨2⟩ "A", loaded⟩, ⟨.define ⟨2⟩ definitionOfA, defined⟩,
        ⟨.load ⟨2⟩ "A", again⟩, ⟨.define ⟨2⟩ definitionOfA, refused⟩] :=
    fun s => ⟨_, _, _, _, rfl⟩
  have hloaders : (run takingOver (run lending (start .empty)).2).1.map
      (fun reply => reply.answer.toOption.map (·.loader)) =
        [some ⟨1⟩, some ⟨2⟩, some ⟨2⟩, none] := by decide +kernel
  obtain ⟨loaded, defined, again, refused, hrun⟩ := hreplies (run lending (start .empty)).2
  simp only [hrun, List.map_cons, List.map_nil, List.cons.injEq, and_true] at hloaders
  obtain ⟨-, hdefined, hagain, -⟩ := hloaders
  obtain ⟨c, rfl, hc⟩ := DefinedClass.exists_of_map_toOption hdefined
  obtain ⟨c', rfl, -⟩ := DefinedClass.exists_of_map_toOption hagain
  refine ⟨_, _, _, _, c, hrun, rfl, ?_, ?_⟩
  · have hsplit : (run takingOver (run lending (start .empty)).2).1 =
        [⟨.load ⟨2⟩ "A", loaded⟩] ++ ⟨.define ⟨2⟩ definitionOfA, .ok c⟩ ::
          ([] ++ ⟨.load ⟨2⟩ "A", .ok c'⟩ :: [⟨.define ⟨2⟩ definitionOfA, refused⟩]) := hrun
    have hagrees := run_answers_agree .empty lending callsOn_takingOver hsplit rfl rfl
    rcases hagrees.answer c' rfl with rfl | ⟨hother, -⟩
    · rfl
    · exact absurd hc hother
  · have hsplit : (run takingOver (run lending (start .empty)).2).1 =
        [⟨.load ⟨2⟩ "A", loaded⟩] ++ ⟨.define ⟨2⟩ definitionOfA, .ok c⟩ ::
          ([⟨.load ⟨2⟩ "A", .ok c'⟩] ++ ⟨.define ⟨2⟩ definitionOfA, refused⟩ :: []) := hrun
    have hagrees := run_answers_agree .empty lending callsOn_takingOver hsplit rfl rfl
    obtain ⟨e, rfl, hiff⟩ := hagrees.refused hc definitionOfA rfl
    have hvalid : definitionOfA.classFile.isOk = true := by decide +kernel
    refine congrArg Except.error (hiff.mpr ?_)
    cases hfile : definitionOfA.classFile with
    | error e =>
      rw [hfile] at hvalid
      cases hvalid
    | ok file => exact ⟨file, rfl⟩

/-- The class that is loaded at first is the host's, and another one can be defined under its
name. -/
theorem load_define_differ :
    let lent := (run lending (start .empty)).2.load ⟨2⟩ "A"
    ∃ c c', lent.1 = .ok c ∧ (lent.2.define ⟨2⟩ definitionOfA).1 = .ok c' ∧
      c.loader = ⟨1⟩ ∧ c'.loader = ⟨2⟩ ∧ c.handle ≠ c'.handle := by
  intro lent
  have hfirst : lent.1.toOption.map (fun c => (c.loader, c.handle)) = some (⟨1⟩, ⟨0⟩) := by
    decide +kernel
  have hsecond : (lent.2.define ⟨2⟩ definitionOfA).1.toOption.map
      (fun c => (c.loader, c.handle)) = some (⟨2⟩, ⟨1⟩) := by decide +kernel
  obtain ⟨c, hc, hhost⟩ := DefinedClass.exists_of_map_toOption hfirst
  obtain ⟨c', hc', hown⟩ := DefinedClass.exists_of_map_toOption hsecond
  obtain ⟨hloader, hhandle⟩ := Prod.mk.inj hhost
  obtain ⟨hloader', hhandle'⟩ := Prod.mk.inj hown
  exact ⟨c, c', hc, hc', hloader, hloader', by rw [hhandle, hhandle']; decide⟩

end Session

end Understudy
