import Understudy.Proofs.Session.Failure
import Understudy.Proofs.Session.Order
import Understudy.Proofs.Session.Use

/-!
The order of loads. A load enters at most one class, into the table of a loader that asks nobody for
the name and would have come to that class whenever it had been asked. So no load makes a difference
to what any loader answers for any name, but for the identities of classes, and what lies in a table
after many loads is told by the names alone that were asked for. Main statement: `run_loads_agree`.
-/

namespace Understudy

/-- What a host answers depends on its table only by the class of that name. -/
theorem HostLoader.content_congr {table table' : ClassTable} {name : String}
    (h : (table.find? name).map DefinedClass.content = (table'.find? name).map DefinedClass.content)
    (id : LoaderId) (found : Except Error (Option ClassFile)) :
    content table id name found = content table' id name found := by
  simp only [content]
  rcases hfound : table.find? name with _ | c
  · rw [hfound, Option.map_none, eq_comm, Option.map_eq_none_iff] at h
    simp only [h]
  · rw [hfound, Option.map_some, eq_comm] at h
    obtain ⟨d, hfound', hcontent⟩ := Option.map_eq_some_iff.mp h
    simp only [hfound', hcontent]

/-- A request and the answer to it, apart from the identity of a class. -/
def Reply.report (reply : Reply) : Request × Except Error DefinedClass.Content :=
  (reply.request, reply.answer.map DefinedClass.content)

namespace Session

/-- What lies in the table of a loader under a name, apart from the identity of the class. -/
def kept (s : Session) (id : LoaderId) (name : String) : Option DefinedClass.Content :=
  ((s.tableOf id).find? name).map DefinedClass.content

/-- What a loader answers for a name, apart from the identity of the class. -/
def told (s : Session) (id : LoaderId) (name : String) : Except Error DefinedClass.Content :=
  (load id name s).1.map DefinedClass.content

variable {s t : Session} {id other : LoaderId} {name searched : String} {c : DefinedClass}
  {ask : Asking} {among : LoaderId → Prop} {success : Bool}

/-! ### Where a load leaves a class -/

/-- A search that fails leaves all tables as they are. -/
theorem Searches.tableOf_of_failed (h : Searches among name false s t) (id : LoaderId) :
    t.tableOf id = s.tableOf id := by
  have hintact := h.intact.loaders id
  rw [tableOf, tableOf]
  generalize s.loader? id = l at hintact ⊢
  generalize t.loader? id = l' at hintact ⊢
  cases hintact with
  | none => rfl
  | some hcounts => cases hcounts <;> rfl

/-- Under a name, the table of a loader is as it was, or the answer is a class that the loader was
to come to, whatever others would have told it. -/
def Settles (name : String) (other : LoaderId) (s : Session) (o : Outcome DefinedClass) : Prop :=
  (o.2.tableOf other).find? name = (s.tableOf other).find? name ∨
    ∃ c, o.1 = .ok c ∧ c.loader = other ∧ ∀ ask, (loadAsking ask other name s).1 = .ok c

/-- A loader that asks nobody settles the name for itself and for nobody else. -/
theorem settles_loadAsking_alone (howned : Owned s) (hsearches : SearchesOnTheWay ask)
    (halone : ∀ below, ¬ AsksFor s name id below) (other : LoaderId) :
    Settles name other s (loadAsking ask id name s) := by
  have hsearch := searchesOnTheWay_loadAsking hsearches id name s
  by_cases hother : other = id
  · subst hother
    cases hanswer : (loadAsking ask other name s).1 with
    | error e =>
      rw [hanswer] at hsearch
      exact .inl (congrArg (Keyed.find? · name) (Searches.tableOf_of_failed hsearch other))
    | ok c =>
      refine .inr ⟨c, hanswer, loader_of_loadAsking howned halone hanswer, fun ask' => ?_⟩
      rw [loadAsking_congr fun below hturns => absurd hturns.asks (halone below), hanswer]
  · left
    rw [tableOf, hsearch.loader?_eq fun hreach => hother (hreach.eq_of_alone halone), tableOf]

theorem settles_loadAsking (howned : Owned s) (hsearches : SearchesOnTheWay ask)
    (hbelow : ∀ below, Settles name other s (ask below name s)) (id : LoaderId) :
    Settles name other s (loadAsking ask id name s) := by
  by_cases hasks : ∃ below, AsksFor s name id below
  · obtain ⟨below, hasks⟩ := hasks
    obtain ⟨loader, here⟩ := hasks.exists_selective
    cases hfound : loader.table.find? name with
    | some c =>
      rw [loadAsking_of_find? (by rwa [tableOf_of_selective here])]
      exact .inl (by rw [tableOf_count])
    | none =>
      have htables : (findSelective ask id loader name s).2.tableOf other =
          (ask below name s).2.tableOf other := by
        rcases hasks.session_findSelective here with hsame | ⟨event, hcount⟩
        · rw [hsame]
        · rw [hcount, tableOf_count]
      rw [loadAsking_of_free ask here hfound, Settles, htables, hasks.answer_findSelective here]
      exact hbelow below
  · exact settles_loadAsking_alone howned hsearches (fun below h => hasks ⟨below, h⟩) other

/-- By induction on how many loaders may ask each other in turn. -/
theorem settles_loadWithin (howned : Owned s) (depth : Nat) (id : LoaderId) :
    Settles name other s (loadWithin depth id name s) := by
  induction depth generalizing id with
  | zero => exact .inl rfl
  | succ depth ih => exact settles_loadAsking howned (searchesOnTheWay_loadWithin depth) ih id

/-- After a load, a table has under a name what it had; or it was the load of that name, and it has
the answer, which is what the loader was to come to. -/
theorem find?_tableOf_load (howned : Owned s) (asked : LoaderId) (searched : String)
    (id : LoaderId) (name : String) :
    ((load asked searched s).2.tableOf id).find? name = (s.tableOf id).find? name ∨
      searched = name ∧ ∃ c, (load asked name s).1 = .ok c ∧ c.loader = id ∧
        ((load asked name s).2.tableOf id).find? name = some c ∧
        ∀ ask, (loadAsking ask id name s).1 = .ok c := by
  by_cases hname : searched = name
  · subst hname
    have hsettles : Settles searched id s (load asked searched s) :=
      settles_loadWithin howned s.loaders.length asked
    rcases hsettles with hsame | ⟨c, hanswer, rfl, hmade⟩
    · exact .inl hsame
    · exact .inr ⟨rfl, c, hanswer, rfl, ((sound_load asked searched s).kept howned c hanswer).2,
        hmade⟩
  · exact .inl ((searches_load asked searched s).find?_tableOf_of_ne hname id)

/-! ### What is answered afterwards -/

/-- A selective loader that has another table and other counts, but no class of the name either,
answers as before if those that it asks do. -/
theorem content_findSelective_congr {loader : SelectiveLoader} {table : ClassTable} {stats : Tally}
    (hkept : ((t.tableOf id).find? name).map DefinedClass.content =
      ((s.tableOf id).find? name).map DefinedClass.content)
    (hclassPath : t.classPathOf loader.entries = s.classPathOf loader.entries)
    (hfiles : t.files = s.files)
    (hask : ∀ below, (ask below name t).1.map DefinedClass.content =
      (ask below name s).1.map DefinedClass.content) :
    (findSelective ask id { loader with table := table, stats := stats } name t).1.map
        DefinedClass.content =
      (findSelective ask id loader name s).1.map DefinedClass.content := by
  let twin : SelectiveLoader := { loader with table := table, stats := stats }
  cases hfirst : loader.interceptors.find? (·.claims name) with
  | some first =>
    have hclaim : findSelective ask id twin name t = _ := findSelective_of_claim hfirst
    rw [hclaim, findSelective_of_claim hfirst]
    cases first with
    | route route => exact hask route.target
    | refuse _ _ => rfl
  | none =>
    by_cases hdefer : loader.policy.decide name = .defer
    · have hdeferred : findSelective ask id twin name t = _ := findSelective_of_defer hfirst hdefer
      rw [hdeferred, findSelective_of_defer hfirst hdefer, answer_loadDeferred, answer_loadDeferred]
      exact hask loader.deferred
    · have hown : findSelective ask id twin name t = _ := findSelective_of_own hfirst hdefer
      rw [hown, findSelective_of_own hfirst hdefer, answer_loadOwned, answer_loadOwned, hfiles,
        hclassPath]
      exact loader.map_content_ownAnswer_congr hkept id _ _ _ _

/-- After a search, loaders answer as before if those that they ask do. -/
theorem content_loadAsking_congr (h : Searches among searched success s t)
    (hkept : t.kept id name = s.kept id name)
    (hask : ∀ below, (ask below name t).1.map DefinedClass.content =
      (ask below name s).1.map DefinedClass.content) :
    (loadAsking ask id name t).1.map DefinedClass.content =
      (loadAsking ask id name s).1.map DefinedClass.content := by
  have hsetup := h.map_setup_eq id
  have hclassPath : ∀ entries, t.classPathOf entries = s.classPathOf entries := fun entries =>
    classPathOf_congr fun entry _ => by rw [entryAt?, entryAt?, h.holdings]
  rcases here : s.loader? id with _ | ⟨host | loader | _⟩
  · rw [here, Option.map_none, Option.map_eq_none_iff] at hsetup
    rw [loadAsking, loadAsking, here, hsetup]
  · obtain ⟨table, there⟩ := h.exists_host here
    have hanswer : ∀ {u host}, u.loader? id = some (.host host) →
        loadAsking ask id name u = load id name u := fun hhost => by
      rw [load_of_host hhost, loadAsking, hhost]
    rw [hanswer here, hanswer there, content_load_of_host here, content_load_of_host there,
      hclassPath, h.files]
    rw [kept, kept, tableOf_of_host here, tableOf_of_host there] at hkept
    exact HostLoader.content_congr hkept id _
  · obtain ⟨table, stats, there⟩ := h.exists_selective here
    cases hfound : (s.tableOf id).find? name with
    | some c =>
      rw [kept, kept, hfound] at hkept
      obtain ⟨d, hfound', hcontent⟩ := Option.map_eq_some_iff.mp hkept
      rw [loadAsking_of_find? hfound, loadAsking_of_find? hfound']
      exact congrArg Except.ok hcontent
    | none =>
      have hfree' : (t.tableOf id).find? name = none := by
        rw [kept, kept, hfound] at hkept
        exact Option.map_eq_none_iff.mp hkept
      rw [tableOf_of_selective here] at hfound
      rw [tableOf_of_selective there] at hfree'
      rw [loadAsking_of_free ask here hfound, loadAsking_of_free ask there hfree']
      exact content_findSelective_congr hkept (hclassPath _) h.files hask
  · rw [here] at hsetup
    obtain ⟨l, there, heq⟩ := Option.map_eq_some_iff.mp hsetup
    cases l with
    | host _ => cases heq
    | selective _ => cases heq
    | resources _ => rw [loadAsking, loadAsking, here, there]

/-- A load makes no difference to what is answered to anyone. By induction on how many loaders may
ask each other in turn. -/
theorem content_loadWithin_load (howned : Owned s) (asked : LoaderId) (searched : String)
    (depth : Nat) (id : LoaderId) (name : String) :
    (loadWithin depth id name (load asked searched s).2).1.map DefinedClass.content =
      (loadWithin depth id name s).1.map DefinedClass.content := by
  induction depth generalizing id with
  | zero => rfl
  | succ depth ih =>
    rw [loadWithin]
    rcases find?_tableOf_load howned asked searched id name with
      hsame | ⟨rfl, c, -, -, hfound, hmade⟩
    · exact content_loadAsking_congr (searches_load asked searched s)
        (congrArg (Option.map DefinedClass.content) hsame) ih
    · -- the class is there by now, and would have been the answer before
      rw [hmade, loadAsking_of_find? hfound]

theorem told_load (howned : Owned s) (asked : LoaderId) (searched : String) (id : LoaderId)
    (name : String) : (load asked searched s).2.told id name = s.told id name := by
  have hdirections := (searches_load asked searched s).sameDirections
  have hlength : (load asked searched s).2.loaders.length = s.loaders.length :=
    Nat.le_antisymm hdirections.symm.length_le hdirections.length_le
  rw [told, told, load, hlength, content_loadWithin_load howned]
  rfl

/-- A load that answers a class leaves it in the table of its loader. -/
theorem kept_load_of_told (howned : Owned s) {content : DefinedClass.Content}
    (h : s.told id name = .ok content) :
    (load id name s).2.kept content.1 name = some content := by
  obtain ⟨c, hanswer, rfl⟩ := DefinedClass.exists_of_map_eq_ok h
  exact congrArg (Option.map DefinedClass.content)
    ((sound_load id name s).kept howned c hanswer).2

/-- What a load changes in a table is what it was to leave there. -/
theorem kept_load (howned : Owned s) (asked : LoaderId) (searched : String) (id : LoaderId)
    (name : String) :
    (load asked searched s).2.kept id name = s.kept id name ∨
      searched = name ∧ ∃ content, s.told asked name = .ok content ∧ content.1 = id := by
  rcases find?_tableOf_load howned asked searched id name with
    hsame | ⟨hname, c, hanswer, hloader, -, -⟩
  · exact .inl (congrArg (Option.map DefinedClass.content) hsame)
  · exact .inr ⟨hname, c.content, by rw [told, hanswer]; rfl, hloader⟩

/-! ### Runs of loads -/

/-- Loads of names by loaders. -/
def loads (calls : List (LoaderId × String)) : List Operation :=
  calls.map fun call => .request (.load call.1 call.2)

theorem consistent_load (hconsistent : Consistent s) (id : LoaderId) (name : String) :
    Consistent (load id name s).2 :=
  hconsistent.grows (sound_load id name s).grows

/-- Every load in a run answers what it would have answered at first. -/
theorem replies_run_loads (hconsistent : Consistent s) (calls : List (LoaderId × String)) :
    (run (loads calls) s).1.map Reply.report =
      calls.map fun call => (.load call.1 call.2, s.told call.1 call.2) := by
  induction calls generalizing s with
  | nil => rfl
  | cons call rest ih =>
    have hrest := ih (consistent_load hconsistent call.1 call.2)
    simp only [told_load hconsistent.owned] at hrest
    exact congrArg ((.load call.1 call.2, s.told call.1 call.2) :: ·) hrest

/-- What some load of a run answers lies in the end with the loader that it belongs to. -/
theorem kept_run_of_told (hconsistent : Consistent s) {calls : List (LoaderId × String)}
    (hmem : (other, name) ∈ calls) {content : DefinedClass.Content}
    (h : s.told other name = .ok content) :
    (run (loads calls) s).2.kept content.1 name = some content := by
  induction calls generalizing s with
  | nil => cases hmem
  | cons call rest ih =>
    rcases List.mem_cons.mp hmem with rfl | hrest
    · have hkept := kept_load_of_told hconsistent.owned h
      obtain ⟨c, hfound, rfl⟩ := Option.map_eq_some_iff.mp hkept
      have hlater := (grows_run (loads rest) (load other name s).2).find?_tableOf hfound
      exact congrArg (Option.map DefinedClass.content) hlater
    · exact ih (consistent_load hconsistent call.1 call.2) hrest
        ((told_load hconsistent.owned call.1 call.2 other name).trans h)

/-- What was in a table is there in the end, unless some load of the run was to leave something. -/
theorem kept_run (hconsistent : Consistent s) (calls : List (LoaderId × String)) (id : LoaderId)
    (name : String) :
    (run (loads calls) s).2.kept id name = s.kept id name ∨
      ∃ asked content, (asked, name) ∈ calls ∧ s.told asked name = .ok content ∧
        content.1 = id := by
  induction calls generalizing s with
  | nil => exact .inl rfl
  | cons call rest ih =>
    have howned := hconsistent.owned
    rcases kept_load howned call.1 call.2 id name with
      hsame | ⟨rfl, content, htold, howner⟩
    · rcases ih (consistent_load hconsistent call.1 call.2) with
        hlater | ⟨asked, content, hmem, htold, howner⟩
      · exact .inl (hlater.trans hsame)
      · rw [told_load howned] at htold
        exact .inr ⟨asked, content, List.mem_cons_of_mem _ hmem, htold, howner⟩
    · exact .inr ⟨call.1, content, List.mem_cons_self, htold, howner⟩

/-- What lies in the tables after loads is told by which they were. -/
theorem kept_run_congr (hconsistent : Consistent s) {first second : List (LoaderId × String)}
    (hsame : ∀ call, call ∈ first ↔ call ∈ second) (id : LoaderId) (name : String) :
    (run (loads first) s).2.kept id name = (run (loads second) s).2.kept id name := by
  rcases kept_run hconsistent first id name with hbefore | ⟨asked, content, hmem, htold, rfl⟩
  · rcases kept_run hconsistent second id name with hbefore' | ⟨asked, content, hmem, htold, rfl⟩
    · rw [hbefore, hbefore']
    · rw [kept_run_of_told hconsistent ((hsame _).mpr hmem) htold,
        kept_run_of_told hconsistent hmem htold]
  · rw [kept_run_of_told hconsistent hmem htold,
      kept_run_of_told hconsistent ((hsame _).mp hmem) htold]

/-- Two runs of loads of the same names by the same loaders, in any order and as often as may be,
come to the same answers and the same classes. -/
theorem run_loads_agree (files : FileTree) (before : List Operation)
    {first second : List (LoaderId × String)} (hsame : ∀ call, call ∈ first ↔ call ∈ second) :
    let s := (run before (start files)).2
    (∃ outcome : LoaderId × String → Except Error DefinedClass.Content,
      (run (loads first) s).1.map Reply.report =
        first.map (fun call => (.load call.1 call.2, outcome call)) ∧
      (run (loads second) s).1.map Reply.report =
        second.map (fun call => (.load call.1 call.2, outcome call))) ∧
    ∀ id name, (run (loads first) s).2.kept id name = (run (loads second) s).2.kept id name := by
  intro s
  have hconsistent : Consistent s :=
    (consistent_start files).grows (grows_run before (start files))
  exact ⟨⟨fun call => s.told call.1 call.2, replies_run_loads hconsistent first,
    replies_run_loads hconsistent second⟩, kept_run_congr hconsistent hsame⟩

/-- A selective loader that modifies the class `B`, routes names that begin with `r.` to one host,
and defers the rest to another one. All of them have a class to offer. -/
def mingling : List Operation :=
  [.change (.addEntry (.single "A" (Stub.encode { name := "A" }))),
    .change (.addEntry (.single "B" (Stub.encode { name := "B" }))),
    .change (.addEntry (.single "r.C" (Stub.encode { name := "r.C" }))),
    .change (.addHost [⟨0⟩]),
    .change (.addHost [⟨2⟩]),
    .change (.addSelective { prepare := Patterns.ofStrings ["B"] }),
    .change (.appendTo ⟨3⟩ ⟨1⟩),
    .change (.setDeferred ⟨3⟩ ⟨1⟩),
    .change (.addInterceptor ⟨3⟩ (.route ⟨["r."], ⟨2⟩⟩))]

/-- Their classes, and one that nobody has. -/
def forwards : List (LoaderId × String) :=
  [(⟨3⟩, "A"), (⟨3⟩, "B"), (⟨3⟩, "r.C"), (⟨3⟩, "D")]

/-- The same the other way round, and some of them again. -/
def backwards : List (LoaderId × String) :=
  [(⟨3⟩, "D"), (⟨3⟩, "r.C"), (⟨3⟩, "B"), (⟨3⟩, "A"), (⟨3⟩, "B"), (⟨3⟩, "D")]

/-- Either way the three classes come to lie with the three loaders. -/
theorem run_loads_agree_mingling :
    let s := (run mingling (start .empty)).2
    let t := (run (loads forwards) s).2
    let u := (run (loads backwards) s).2
    (∀ call, call ∈ forwards ↔ call ∈ backwards) ∧
      (∀ id name, t.kept id name = u.kept id name) ∧
      (t.kept ⟨1⟩ "A").isSome = true ∧ (t.kept ⟨3⟩ "B").isSome = true ∧
      (t.kept ⟨2⟩ "r.C").isSome = true ∧
      (run (loads backwards) s).1.map (fun reply => reply.answer.toOption.map (·.loader)) =
        [none, some ⟨2⟩, some ⟨3⟩, some ⟨1⟩, some ⟨3⟩, none] := by
  intro s t u
  have hsame : ∀ call, call ∈ forwards ↔ call ∈ backwards := by
    have hthere : forwards ⊆ backwards := by decide
    have hback : backwards ⊆ forwards := by decide
    exact fun _ => ⟨fun hmem => hthere hmem, fun hmem => hback hmem⟩
  refine ⟨hsame, (run_loads_agree .empty mingling hsame).2, ?_⟩
  decide +kernel

end Session

end Understudy
