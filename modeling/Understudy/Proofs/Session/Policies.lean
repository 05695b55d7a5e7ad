import Understudy.Proofs.Selection.Precedence
import Understudy.Proofs.Session.Consistency
import Understudy.Proofs.Session.Search

/-!
The policies of loaders in the course of a run. Nothing but ignores that are appended to it changes
the policy of a selective loader, and a loader passes classes through its chain only under names
that its policy, as it is then, has modified. Main statement: `HasPolicy.exists_visits_run`.
-/

namespace Understudy

/-- The policy of a loader that has one. -/
def Loader.policy? : Loader → Option Policy
  | selective loader => some loader.policy
  | _ => none

theorem Loader.policy?_setup (l : Loader) : l.setup.policy? = l.policy? := by
  cases l <;> rfl

theorem Loader.policy?_mapEntries (l : Loader) (f : List EntryId → List EntryId) :
    (l.mapEntries f).policy? = l.policy? := by
  cases l <;> rfl

theorem Loader.policy?_mapTable (l : Loader) (f : ClassTable → ClassTable) :
    (l.mapTable f).policy? = l.policy? := by
  cases l <;> rfl

theorem Loader.policy?_mapSelective (l : Loader) {f : SelectiveLoader → SelectiveLoader}
    (h : ∀ m, (f m).policy = m.policy) : (l.mapSelective f).policy? = l.policy? := by
  cases l with
  | selective m => exact congrArg some (h m)
  | host _ => rfl
  | resources _ => rfl

namespace Policy

theorem run_append (calls more : List Call) (policy : Policy) :
    (run (calls ++ more) policy).2 = (run more (run calls policy).2).2 := by
  induction calls generalizing policy with
  | nil => rfl
  | cons call rest ih =>
    cases call with
    | addIgnore pattern => exact ih (policy.addIgnore pattern)
    | decide _ => exact ih policy

theorem run_map_addIgnore (patterns : List String) (policy : Policy) :
    (run (patterns.map .addIgnore) policy).2 = patterns.foldl addIgnore policy := by
  induction patterns generalizing policy with
  | nil => rfl
  | cons pattern rest ih => exact ih (policy.addIgnore pattern)

end Policy

/-- What an operation does with the policy of a loader, questions apart. -/
def Operation.policyCalls (id : LoaderId) : Operation → List Policy.Call
  | change (.addIgnores target patterns) =>
    if target = id then patterns.map Policy.Call.addIgnore else []
  | _ => []

theorem Operation.mem_policyCalls_iff {op : Operation} {id : LoaderId} {pattern : String} :
    .addIgnore pattern ∈ op.policyCalls id ↔
      ∃ patterns, op = .change (.addIgnores id patterns) ∧ pattern ∈ patterns := by
  constructor
  · intro h
    unfold policyCalls at h
    split at h
    · next target patterns =>
      split at h
      · next htarget =>
        obtain ⟨other, hother, heq⟩ := List.mem_map.mp h
        exact ⟨patterns, by rw [htarget], Policy.Call.addIgnore.inj heq ▸ hother⟩
      · cases h
    · cases h
  · rintro ⟨patterns, rfl, hpattern⟩
    rw [policyCalls, if_pos rfl]
    exact List.mem_map_of_mem hpattern

namespace Session

/-- A selective loader has this policy. -/
def HasPolicy (s : Session) (id : LoaderId) (policy : Policy) : Prop :=
  (s.loader? id).map Loader.policy? = some (some policy)

variable {s t u : Session} {id : LoaderId} {name : String} {policy : Policy}

theorem hasPolicy_of_selective {loader : SelectiveLoader}
    (here : s.loader? id = some (.selective loader)) : HasPolicy s id loader.policy := by
  rw [HasPolicy, here]
  rfl

theorem HasPolicy.policy_eq (h : HasPolicy s id policy) {loader : SelectiveLoader}
    (here : s.loader? id = some (.selective loader)) : loader.policy = policy := by
  rw [HasPolicy, here] at h
  exact Option.some.inj (Option.some.inj h)

/-- What a policy ignores after some operations it ignored before, or one of them had it ignored. -/
theorem match_ignore_run_policyCalls_iff (policy : Policy) (id : LoaderId) (ops : List Operation)
    (name : String) :
    (Policy.run (ops.flatMap (·.policyCalls id)) policy).2.ignore.Match name ↔
      policy.ignore.Match name ∨ ∃ patterns pattern, .change (.addIgnores id patterns) ∈ ops ∧
        pattern ∈ patterns ∧ (Pattern.ofString pattern).isMatch name = true := by
  rw [Policy.match_ignore_run_iff]
  refine or_congr_right ⟨?_, ?_⟩
  · rintro ⟨pattern, hcall, hmatch⟩
    obtain ⟨op, hop, hmem⟩ := List.mem_flatMap.mp hcall
    obtain ⟨patterns, rfl, hpattern⟩ := Operation.mem_policyCalls_iff.mp hmem
    exact ⟨patterns, pattern, hop, hpattern, hmatch⟩
  · rintro ⟨patterns, pattern, hop, hpattern, hmatch⟩
    exact ⟨pattern, List.mem_flatMap.mpr
      ⟨_, hop, Operation.mem_policyCalls_iff.mpr ⟨patterns, rfl, hpattern⟩⟩, hmatch⟩

/-! ### Requests -/

/-- How a loader with a policy comes through a stretch of operations that leaves its policy alone.
All that it has passed through its chain meanwhile is of names that the policy modifies. -/
structure Obeys (id : LoaderId) (policy : Policy) (s t : Session) : Prop where
  has : HasPolicy t id policy
  visits : ∃ visits, t.visits = s.visits ++ visits ∧ ∀ visit ∈ visits,
    visit.context.loader = id → policy.decide visit.context.className = .modify

theorem Obeys.trans (h : Obeys id policy s t) (k : Obeys id policy t u) : Obeys id policy s u where
  has := k.has
  visits := exists_visits_trans h.visits k.visits

theorem Obeys.of_visits_eq (h : HasPolicy t id policy) (hvisits : t.visits = s.visits) :
    Obeys id policy s t where
  has := h
  visits := ⟨[], by rw [hvisits, List.append_nil], fun _ hmem => nomatch hmem⟩

theorem SearchStep.obeys {among : LoaderId → Prop} {success : Bool}
    (h : SearchStep among name success s t) (hpolicy : HasPolicy s id policy) :
    Obeys id policy s t where
  has := by
    have hsetup := congrArg (Option.map Loader.policy?) (h.map_setup_eq id)
    simp only [Option.map_map, Function.comp_def, Loader.policy?_setup] at hsetup
    exact hsetup.trans hpolicy
  visits := by
    obtain ⟨visits, hvisits, hof⟩ := h.exists_visits
    refine ⟨visits, hvisits, fun visit hvisit hloader => ?_⟩
    obtain ⟨-, hclass, loader, here, -, -, hmodify⟩ := hof visit hvisit
    rw [hloader] at here
    rwa [hclass, ← hpolicy.policy_eq here]

theorem Searches.obeys {among : LoaderId → Prop} {success : Bool}
    (h : Searches among name success s t) (hpolicy : HasPolicy s id policy) :
    Obeys id policy s t := by
  induction h with
  | refl => exact .of_visits_eq hpolicy rfl
  | tail _ step ih => exact ih.trans (step.obeys ih.has)

theorem HasPolicy.updateLoader (h : HasPolicy s id policy) (other : LoaderId) {f : Loader → Loader}
    (hf : ∀ l, (f l).policy? = l.policy?) : HasPolicy (s.updateLoader other f) id policy :=
  (map_updateLoader Loader.policy? s other id hf).trans h

theorem HasPolicy.enter (h : HasPolicy s id policy) (c : DefinedClass) :
    HasPolicy (s.enter c) id policy :=
  h.updateLoader c.loader fun l => l.policy?_mapTable _

theorem HasPolicy.keepBytes (h : HasPolicy s id policy) (other : LoaderId) (c : DefinedClass) :
    HasPolicy (s.keepBytes other c) id policy :=
  HasPolicy.updateLoader (s := (s.addEntry _).2) h other fun l => l.policy?_mapEntries _

theorem obeys_define (h : HasPolicy s id policy) (other : LoaderId) (d : Definition) :
    Obeys id policy s (define other d s).2 := by
  cases hanswer : (define other d s).1 with
  | error e =>
    rw [define_of_error hanswer]
    exact .of_visits_eq h rfl
  | ok c =>
    obtain ⟨-, -, hafter | hafter⟩ := define_of_ok hanswer
    · rw [hafter]
      exact .of_visits_eq (h.enter c) rfl
    · rw [hafter]
      exact .of_visits_eq ((h.enter c).keepBytes other c) rfl

theorem obeys_perform (h : HasPolicy s id policy) (request : Request) :
    Obeys id policy s (request.perform s).2 := by
  cases request with
  | load other name => exact (searches_load other name s).obeys h
  | find other name => exact (searches_find other name s).obeys h
  | define other d => exact obeys_define h other d

/-! ### Changes -/

theorem HasPolicy.addLoader (h : HasPolicy s id policy) (l : Loader) :
    HasPolicy (s.addLoader l).2 id policy := by
  rcases hid : s.loader? id with _ | known
  · rw [HasPolicy, hid] at h
    cases h
  · have hlater : (s.addLoader l).2.loader? id = some known := by
      rw [loader?, Session.addLoader, List.getElem?_append_left (value_lt_of_loader? hid)]
      exact hid
    rw [HasPolicy, hlater, ← hid]
    exact h

theorem HasPolicy.addSelective (h : HasPolicy s id policy) (config : Setup) :
    HasPolicy (s.addSelective config).2 id policy := by
  have hspec := addSelective_spec config s
  rcases hadded : s.addSelective config with ⟨e | id', t⟩
  · rw [hadded] at hspec
    obtain ⟨more, rfl⟩ := hspec
    exact h
  · rw [hadded] at hspec
    obtain ⟨u, entries, ⟨more, rfl⟩, hnew⟩ := hspec
    obtain ⟨-, rfl⟩ := Prod.mk.inj hnew
    exact HasPolicy.addLoader (s := { s with holdings := s.holdings ++ more }) h _

theorem HasPolicy.addIgnores (h : HasPolicy s id policy) (target : LoaderId)
    (patterns : List String) : HasPolicy (s.addIgnores target patterns) id
      (if target = id then patterns.foldl Policy.addIgnore policy else policy) := by
  by_cases htarget : target = id
  · subst htarget
    obtain ⟨l, hl, hpolicy⟩ := Option.map_eq_some_iff.mp h
    rw [if_pos rfl, HasPolicy, Session.addIgnores, loader?_updateLoader_self, hl]
    cases l with
    | selective m =>
      rw [← Option.some.inj hpolicy]
      rfl
    | host _ => cases hpolicy
    | resources _ => cases hpolicy
  · rw [if_neg htarget, HasPolicy, Session.addIgnores,
      loader?_updateLoader_of_ne s _ (Ne.symm htarget)]
    exact h

/-- Only appended ignores change it. -/
theorem HasPolicy.change (h : HasPolicy s id policy) (change : Change) :
    HasPolicy (change.perform s) id
      (Policy.run (Operation.policyCalls id (.change change)) policy).2 := by
  cases change with
  | putFiles _ => exact h
  | addEntry _ => exact h
  | insertClass _ _ _ => exact h
  | insertResource _ _ _ => exact h
  | addHost _ => exact h.addLoader _
  | addResourceLoader _ _ => exact h.addLoader _
  | addSelective config => exact h.addSelective config
  | appendTo target _ => exact h.updateLoader target fun l => l.policy?_mapEntries _
  | setChain target _ =>
    exact h.updateLoader target fun l => l.policy?_mapSelective fun _ => rfl
  | setDeferred target _ =>
    exact h.updateLoader target fun l => l.policy?_mapSelective fun _ => rfl
  | addInterceptor target _ =>
    exact h.updateLoader target fun l => l.policy?_mapSelective fun _ => rfl
  | addIgnores target patterns =>
    have hadded := h.addIgnores target patterns
    rw [Operation.policyCalls]
    split
    · next htarget =>
      rw [if_pos htarget] at hadded
      rw [Policy.run_map_addIgnore]
      exact hadded
    · next htarget =>
      rw [if_neg htarget] at hadded
      exact hadded

/-- A change passes no class through a chain. -/
theorem visits_change (change : Change) (s : Session) : (change.perform s).visits = s.visits := by
  cases change with
  | addSelective config =>
    have hspec := addSelective_spec config s
    rw [Change.perform]
    rcases hadded : s.addSelective config with ⟨e | id', t⟩
    · rw [hadded] at hspec
      obtain ⟨more, rfl⟩ := hspec
      rfl
    · rw [hadded] at hspec
      obtain ⟨u, entries, ⟨more, rfl⟩, hnew⟩ := hspec
      obtain ⟨-, rfl⟩ := Prod.mk.inj hnew
      rfl
  | _ => rfl

/-! ### Runs -/

/-- By induction on the run: every visit was made when the policy had come through the operations up
to there, and modified the name. -/
theorem HasPolicy.exists_visits_run (h : HasPolicy s id policy) (ops : List Operation) :
    ∃ visits, (run ops s).2.visits = s.visits ++ visits ∧ ∀ visit ∈ visits,
      visit.context.loader = id → ∃ before, before <+: ops ∧
        (Policy.run (before.flatMap (·.policyCalls id)) policy).2.decide visit.context.className =
          .modify := by
  induction ops generalizing s policy with
  | nil => exact ⟨[], (List.append_nil _).symm, fun _ hmem => nomatch hmem⟩
  | cons op rest ih =>
    cases op with
    | request request =>
      have hfirst := obeys_perform h request
      obtain ⟨first, hvisits, hobeyed⟩ := hfirst.visits
      obtain ⟨later, hlater, hobeyed'⟩ := ih hfirst.has
      refine exists_visits_trans ⟨first, hvisits, fun visit hvisit hloader => ?_⟩
        ⟨later, hlater, fun visit hvisit hloader => ?_⟩
      · exact ⟨[], List.nil_prefix, hobeyed visit hvisit hloader⟩
      · obtain ⟨before, hbefore, hmodify⟩ := hobeyed' visit hvisit hloader
        exact ⟨_ :: before, List.prefix_cons_inj _ |>.mpr hbefore, hmodify⟩
    | change change =>
      obtain ⟨visits, hvisits, hobeyed⟩ := ih (h.change change)
      refine ⟨visits, ?_, fun visit hvisit hloader => ?_⟩
      · rw [← visits_change change s, ← hvisits]
        rfl
      · obtain ⟨before, hbefore, hmodify⟩ := hobeyed visit hvisit hloader
        refine ⟨_ :: before, List.prefix_cons_inj _ |>.mpr hbefore, ?_⟩
        rw [List.flatMap_cons, Policy.run_append]
        exact hmodify

end Session

end Understudy
