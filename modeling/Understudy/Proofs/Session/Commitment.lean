import Understudy.Proofs.Session.Answers

/-!
Loading is a commitment. A selective loader that has not defined a class decides once who is to
answer for it: the interceptor that claims the name first, the loader itself, or the one that it
defers to. Whoever it is, the answer is final, also when it is a failure, and nobody else is asked.

What the loader answers for itself does not depend on whom it could defer to. What another loader
answers for it is handed on as it is, and does not depend on the class path and the chain of the one
that asks. Of the others at most those on the way change, and of a loader that asks others nothing
but a count. Main statement: `load_commits`.
-/

namespace Understudy

namespace Session

/-- Two sessions that differ at most in one loader, and in what no other loader has on its class
path. -/
structure SameElsewhere (id : LoaderId) (s t : Session) : Prop where
  files : t.files = s.files
  nextHandle : t.nextHandle = s.nextHandle
  count : t.loaders.length = s.loaders.length
  others : ∀ other, other ≠ id → SameAt other s t

/-- A selective loader has left the answer to others: it has counted at most, and none of its units
was asked. All entries and files are as they were. -/
structure StandsBy (id : LoaderId) (loader : SelectiveLoader) (s t : Session) : Prop where
  files : t.files = s.files
  holdings : t.holdings = s.holdings
  counted : ∃ stats, t.loader? id = some (.selective { loader with stats := stats })
  visits : ∃ visits, t.visits = s.visits ++ visits ∧
    ∀ visit ∈ visits, visit.context.loader ≠ id

variable {s t : Session} {id : LoaderId} {loader : SelectiveLoader} {name : String}

/-! ### One's own classes -/

/-- A class of its own is looked for by the loader alone. -/
theorem searches_own (here : s.loader? id = some (.selective loader))
    (hunclaimed : loader.interceptors.find? (·.claims name) = none)
    (hown : loader.policy.decide name ≠ .defer) :
    ∃ success, Searches (· = id) name success s
      (loadOwned id loader (loader.policy.shouldModify name) name s).2 := by
  have hself : ∀ other, id = other → other = id := fun _ => Eq.symm
  refine ⟨_, (searches_loadOwned (Eq.refl id) here hunclaimed ?_).mono hself⟩
  rw [Policy.shouldModify]
  cases hdecide : loader.policy.decide name with
  | modify => rfl
  | loadUnmodified => rfl
  | defer => exact absurd hdecide hown

/-- The answer for a class of its own is the same in every session where the loader has the same
classes, chain, policy and interceptors, and finds the same on its class path. -/
theorem content_load_own (here : s.loader? id = some (.selective loader))
    (hfree : loader.table.find? name = none)
    (hunclaimed : loader.interceptors.find? (·.claims name) = none)
    (hown : loader.policy.decide name ≠ .defer) (target : LoaderId)
    (there : t.loader? id = some (.selective { loader with deferred := target }))
    (hfiles : t.files = s.files)
    (hclassPath : t.classPathOf loader.entries = s.classPathOf loader.entries) :
    (load id name t).1.map DefinedClass.content = (load id name s).1.map DefinedClass.content := by
  obtain ⟨depth, hload⟩ := load_eq_findSelective here hfree
  obtain ⟨depth', hload'⟩ := load_eq_findSelective there hfree
  let twin : SelectiveLoader := { loader with deferred := target }
  have hown' : findSelective (loadWithin depth') id twin name t =
      loadOwned id twin (loader.policy.shouldModify name) name t :=
    findSelective_of_own hunclaimed hown
  rw [findSelective_of_own hunclaimed hown] at hload
  rw [hown'] at hload'
  rw [hload, hload', answer_loadOwned, answer_loadOwned, tableOf_of_selective here,
    tableOf_of_selective there, hfiles, hclassPath]
  exact loader.map_content_ownAnswer_congr rfl id _ _ _ _

/-! ### What is left to others -/

theorem StandsBy.refl (here : s.loader? id = some (.selective loader)) :
    StandsBy id loader s s where
  files := rfl
  holdings := rfl
  counted := ⟨loader.stats, here⟩
  visits := ⟨[], (List.append_nil _).symm, fun _ hmem => nomatch hmem⟩

/-- A step of a search for a name that the loader leaves to others. -/
theorem StandsBy.step {among : LoaderId → Prop} {success : Bool} {u : Session}
    (h : StandsBy id loader s t) (step : SearchStep among name success t u)
    (hleaves : loader.interceptors.find? (·.claims name) = none →
      loader.policy.decide name = .defer) : StandsBy id loader s u := by
  obtain ⟨stats, there⟩ := h.counted
  refine ⟨step.files.trans h.files, step.holdings.trans h.holdings, ?_, ?_⟩
  · cases step with
    | @counted other event _ _ =>
      by_cases hother : other = id
      · subst hother
        refine ⟨stats.count event, ?_⟩
        rw [count, loader?_updateLoader_self, there]
        rfl
      · exact ⟨stats, (loader?_count_of_ne t event (Ne.symm hother)).trans there⟩
    | passed _ _ _ _ _ => exact ⟨stats, there⟩
    | @entered c _ _ hnamed _ _ _ htakes =>
      refine ⟨stats, (loader?_enter_of_ne t fun hid => ?_).trans there⟩
      -- the loader would have entered a class that is not its own
      subst hid
      cases htakes with
      | host here _ _ => rw [there] at here; cases here
      | selective here hunclaimed hown =>
        rw [there] at here
        cases here
        rw [hnamed] at hunclaimed hown
        exact hown (hleaves hunclaimed)
  · obtain ⟨before, hbefore, hothers⟩ := h.visits
    obtain ⟨added, hadded, hwho⟩ := step.exists_visits
    refine ⟨before ++ added, by rw [hadded, hbefore, List.append_assoc], fun visit hvisit => ?_⟩
    refine (List.mem_append.mp hvisit).elim (hothers visit) fun hnew hid => ?_
    obtain ⟨-, -, visited, here, hunclaimed, -, hmodify⟩ := hwho visit hnew
    rw [hid, there] at here
    cases here
    rw [hleaves hunclaimed] at hmodify
    cases hmodify

theorem Searches.standsBy {among : LoaderId → Prop} {success : Bool}
    (h : Searches among name success s t) (here : s.loader? id = some (.selective loader))
    (hleaves : loader.interceptors.find? (·.claims name) = none →
      loader.policy.decide name = .defer) : StandsBy id loader s t := by
  induction h with
  | refl => exact .refl here
  | tail _ step ih => exact ih.step step hleaves

/-- What is left to others is answered alike whatever else the loader is made of. -/
theorem answer_load_of_leaves {twin : SelectiveLoader} (hsame : SameElsewhere id s t)
    (here : s.loader? id = some (.selective loader))
    (there : t.loader? id = some (.selective twin)) (hfree : loader.table.find? name = none)
    (hfree' : twin.table.find? name = none) (hleaves : Leaves name loader twin) :
    (load id name t).1 = (load id name s).1 := by
  rw [load, load, hsame.count]
  refine answer_congr hsame.files hsame.nextHandle s.loaders.length id fun passed _ => ?_
  by_cases hpassed : passed = id
  · subst hpassed
    exact .leaving here there hfree hfree' hleaves
  · exact .same (hsame.others passed hpassed)

/-- Who is not on the way from the loader that is asked is left alone. -/
theorem loader?_load_of_asksFor {below other : LoaderId} (hasks : AsksFor s name id below)
    (hother : other ≠ id) (hreach : ¬ Reaches s name below other) :
    (load id name s).2.loader? other = s.loader? other := by
  refine (searches_load id name s).loader?_eq fun hpassed => ?_
  rcases hpassed.cases_head with heq | ⟨next, hnext, hrest⟩
  · exact hother heq.symm
  · rw [hasks.unique hnext] at hreach
    exact hreach hrest

/-! ### The commitment -/

/-- Who answers the load of a class that a selective loader has not defined, and what the answer
does not depend on. -/
theorem load_commits (here : s.loader? id = some (.selective loader))
    (hfree : loader.table.find? name = none) :
    let answer := (load id name s).1
    let after := (load id name s).2
    let unclaimed := ∀ interceptor ∈ loader.interceptors, interceptor.claims name = false
    (unclaimed → loader.policy.decide name ≠ .defer →
      (∀ t target, t.loader? id = some (.selective { loader with deferred := target }) →
        t.files = s.files → t.classPathOf loader.entries = s.classPathOf loader.entries →
          (load id name t).1.map DefinedClass.content = answer.map DefinedClass.content) ∧
      ((s.classPathOf loader.entries).find s.files name = .ok none →
        answer = .error (.classNotFound name)) ∧
      after.files = s.files ∧ after.holdings = s.holdings ∧
      ∀ other, other ≠ id → after.loader? other = s.loader? other) ∧
    (unclaimed → loader.policy.decide name = .defer →
      answer = (load loader.deferred name s).1 ∧
      (∀ t entries chain, SameElsewhere id s t →
        t.loader? id = some (.selective { loader with entries := entries, chain := chain }) →
          (load id name t).1 = answer) ∧
      StandsBy id loader s after) ∧
    ∀ before first behind, loader.interceptors = before ++ first :: behind →
      (∀ earlier ∈ before, earlier.claims name = false) → first.claims name = true →
      (∀ route, first = .route route → answer = (load route.target name s).1) ∧
      (∀ refused e, first = .refuse refused e → answer = .error e) ∧
      (∀ t twin, SameElsewhere id s t → t.loader? id = some (.selective twin) →
        twin.table.find? name = none → twin.interceptors = loader.interceptors →
          (load id name t).1 = answer) ∧
      StandsBy id loader s after ∧
      ∀ other, other ≠ id → (∀ route, first = .route route → ¬ Reaches s name route.target other) →
        after.loader? other = s.loader? other := by
  intro answer after unclaimed
  obtain ⟨depth, hload⟩ := load_eq_findSelective here hfree
  have hfree' : (s.tableOf id).find? name = none := by rw [tableOf_of_selective here, hfree]
  refine ⟨fun hunclaimed hown => ?_, fun hunclaimed hdefer => ?_, ?_⟩
  · have hnone := find?_claims_eq_none hunclaimed
    rw [findSelective_of_own hnone hown] at hload
    obtain ⟨success, hsearch⟩ := searches_own here hnone hown
    rw [← hload] at hsearch
    refine ⟨fun t target there hfiles hclassPath =>
      content_load_own here hfree hnone hown target there hfiles hclassPath, fun hmissing => ?_,
      hsearch.files, hsearch.holdings, fun other hother => hsearch.loader?_eq hother⟩
    have hanswer : answer = (loadOwned id loader (loader.policy.shouldModify name) name s).1 := by
      rw [← hload]
    rw [hanswer, answer_loadOwned, hmissing]
    rfl
  · have hasks : AsksFor s name id loader.deferred :=
      .deferred here (find?_claims_eq_none hunclaimed) hdefer
    exact ⟨answer_load_of_turnsTo ⟨hfree', hasks⟩, fun t entries chain hsame there =>
      answer_load_of_leaves hsame here there hfree hfree ⟨rfl, fun _ => ⟨hdefer, hdefer, rfl⟩⟩,
      (searches_load id name s).standsBy here fun _ => hdefer⟩
  · intro before first behind hsplit hbefore hfirst
    have hfind : loader.interceptors.find? (·.claims name) = some first := by
      rw [hsplit, List.find?_append, find?_claims_eq_none hbefore, Option.none_or]
      exact List.find?_cons_of_pos hfirst
    have hleaves : ∀ {P : Prop}, loader.interceptors.find? (·.claims name) = none → P := by
      intro P hnone
      rw [hfind] at hnone
      cases hnone
    refine ⟨fun route hroute => ?_, fun refused e hrefuse => ?_,
      fun t twin hsame there hfree' hsame' =>
        answer_load_of_leaves hsame here there hfree hfree' ⟨hsame', hleaves⟩,
      (searches_load id name s).standsBy here hleaves, fun other hother hreach => ?_⟩
    · subst hroute
      exact answer_load_of_turnsTo ⟨hfree', .routed here hfind⟩
    · subst hrefuse
      rw [findSelective_of_claim hfind] at hload
      exact congrArg Prod.fst hload
    · cases first with
      | route route => exact loader?_load_of_asksFor (.routed here hfind) hother (hreach route rfl)
      | refuse refused e =>
        rw [findSelective_of_claim hfind] at hload
        rw [show after = s.count id .intercepted from congrArg Prod.snd hload]
        exact loader?_count_of_ne s .intercepted hother

/-- A loader that modifies the classes `far.*`, has only a class `own.A` and routes `cut.*` away. -/
def divider : SelectiveLoader where
  policy := ⟨[], [], [Pattern.ofString "far.*"], []⟩
  suppressStatic := []
  entries := [⟨0⟩]
  deferred := ⟨1⟩
  interceptors := [.route ⟨["cut."], ambient⟩]
  domain := {}

/-- The host that it defers to has the classes `far.B` and `cut.C`. -/
def divided : Session :=
  { start .empty with
    holdings := ["own.A", "far.B", "cut.C"].map fun name =>
      .single name (Stub.encode { name := name })
    loaders := [.host { entries := [] }, .host { entries := [⟨1⟩, ⟨2⟩] }, .selective divider] }

/-- None of the classes is found by the loader, though each of them is there: one with the host, one
with the loader itself, and one with both out of the way. -/
theorem load_commits_divided :
    (divided.load ⟨2⟩ "far.B").1 = .error (.classNotFound "far.B") ∧
      (divided.load ⟨2⟩ "own.A").1 = .error (.classNotFound "own.A") ∧
      (divided.load ⟨2⟩ "cut.C").1 = .error (.classNotFound "cut.C") ∧
      (divided.load ⟨1⟩ "far.B").1.isOk = true ∧ (divided.load ⟨1⟩ "cut.C").1.isOk = true ∧
      (divided.classPathOf [⟨0⟩]).contains .empty "own.A" = true := by
  have here : divided.loader? ⟨2⟩ = some (.selective divider) := rfl
  have hunclaimed : ∀ name, Route.covers ["cut."] name = false →
      ∀ interceptor ∈ divider.interceptors, interceptor.claims name = false := by
    intro name hname interceptor hmem
    obtain rfl := List.mem_singleton.mp hmem
    exact hname
  refine ⟨?_, ?_, ?_, by decide +kernel, by decide +kernel, by decide +kernel⟩
  · have hown : divider.policy.decide "far.B" ≠ .defer := by decide +kernel
    have hmissing : (divided.classPathOf divider.entries).find divided.files "far.B" =
        .ok none := by decide +kernel
    exact ((load_commits here rfl).1 (hunclaimed _ (by decide +kernel)) hown).2.1 hmissing
  · have hdefer : divider.policy.decide "own.A" = .defer := by decide +kernel
    rw [((load_commits here rfl).2.1 (hunclaimed _ (by decide +kernel)) hdefer).1]
    decide +kernel
  · have hclaims : Route.covers ["cut."] "cut.C" = true := by decide +kernel
    rw [((load_commits here rfl).2.2 [] _ [] rfl (fun _ hmem => nomatch hmem) hclaims).1 _ rfl]
    decide +kernel

end Session

end Understudy
