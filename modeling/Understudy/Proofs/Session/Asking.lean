import Mathlib.Data.List.Chain
import Mathlib.Logic.Relation
import Understudy.Proofs.Session.Deferral
import Understudy.Proofs.Session.Tables

/-!
Which loaders ask which others. A loader asks others only in the session as it was when it was asked
itself, and for one name at most one of them. Where the loaders that turn to each other come to an
end they are all different, and the depth that a session allows is enough; where they come to none,
nobody has an answer at any depth. Either way a loader that turns to another one answers what that
one answers. Main statements: `load_eq_loadAsking` and `answer_load_of_turnsTo`.
-/

namespace Understudy

/-- What a loader goes by when it decides whom to ask. -/
def Loader.directions : Loader → Option (List Interceptor × Policy × LoaderId)
  | selective loader => some (loader.interceptors, loader.policy, loader.deferred)
  | _ => none

theorem Loader.directions_mapTable (l : Loader) (f : ClassTable → ClassTable) :
    (l.mapTable f).directions = l.directions := by
  cases l <;> rfl

theorem Loader.directions_mapEntries (l : Loader) (f : List EntryId → List EntryId) :
    (l.mapEntries f).directions = l.directions := by
  cases l <;> rfl

namespace Session

/-- A loader asks another one for a name that it has no class of: the first interceptor that claims
the name routes there, or else the policy defers the name. -/
inductive AsksFor (s : Session) (name : String) : LoaderId → LoaderId → Prop
  | routed {id : LoaderId} {loader : SelectiveLoader} {route : Route}
    (here : s.loader? id = some (.selective loader))
    (first : loader.interceptors.find? (·.claims name) = some (.route route)) :
    AsksFor s name id route.target
  | deferred {id : LoaderId} {loader : SelectiveLoader}
    (here : s.loader? id = some (.selective loader))
    (unclaimed : loader.interceptors.find? (·.claims name) = none)
    (decided : loader.policy.decide name = .defer) : AsksFor s name id loader.deferred

/-- The second loader lies on the way that a search for a name takes from the first one on. -/
abbrev Reaches (s : Session) (name : String) : LoaderId → LoaderId → Prop :=
  Relation.ReflTransGen (AsksFor s name)

/-- A loader has no class of a name, and asks another one. -/
structure TurnsTo (s : Session) (name : String) (id below : LoaderId) : Prop where
  free : (s.tableOf id).find? name = none
  asks : AsksFor s name id below

/-- Loaders that turn to each other for a name come to an end, from this loader on. -/
def Ends (s : Session) (name : String) : LoaderId → Prop :=
  Acc fun below above => TurnsTo s name above below

variable {s : Session} {name : String} {id below other : LoaderId} {loader : SelectiveLoader}

theorem AsksFor.exists_selective (h : AsksFor s name id below) :
    ∃ loader, s.loader? id = some (.selective loader) := by
  cases h with
  | routed here _ => exact ⟨_, here⟩
  | deferred here _ _ => exact ⟨_, here⟩

/-- There is no choice whom to ask. -/
theorem AsksFor.unique (h : AsksFor s name id below) (h' : AsksFor s name id other) :
    below = other := by
  cases h with
  | routed here first =>
    cases h' with
    | routed here' first' =>
      rw [here] at here'
      cases here'
      rw [first] at first'
      cases first'
      rfl
    | deferred here' none' _ => rw [here] at here'; cases here'; rw [first] at none'; cases none'
  | deferred here hnone _ =>
    cases h' with
    | routed here' first' => rw [here] at here'; cases here'; rw [hnone] at first'; cases first'
    | deferred here' _ _ => rw [here] at here'; cases here'; rfl

/-- The search of a loader that asks nobody goes nowhere else. -/
theorem Reaches.eq_of_alone (halone : ∀ below, ¬ AsksFor s name id below)
    (hreach : Reaches s name id other) : other = id := by
  rcases hreach.cases_head with heq | ⟨below, hasks, -⟩
  · exact heq.symm
  · exact absurd hasks (halone below)

/-! ### Who decides about a name -/

theorem find?_claims_eq_none {interceptors : List Interceptor}
    (h : ∀ interceptor ∈ interceptors, interceptor.claims name = false) :
    interceptors.find? (·.claims name) = none :=
  List.find?_eq_none.mpr fun interceptor hmem => by simp [h interceptor hmem]

/-- The interceptor that claims a name first decides about it. -/
theorem findSelective_of_claim {ask : Asking} {first : Interceptor}
    (h : loader.interceptors.find? (·.claims name) = some first) :
    findSelective ask id loader name s =
      ((answerClaim ask name first s).1,
        (answerClaim ask name first s).2.count id .intercepted) := by
  rw [findSelective, h]

theorem findSelective_of_defer {ask : Asking}
    (h : loader.interceptors.find? (·.claims name) = none)
    (hdefer : loader.policy.decide name = .defer) :
    findSelective ask id loader name s = loadDeferred ask id loader name s := by
  rw [findSelective, h, hdefer]

/-- A name that the policy does not defer is the loader's own. -/
theorem findSelective_of_own {ask : Asking}
    (h : loader.interceptors.find? (·.claims name) = none)
    (hown : loader.policy.decide name ≠ .defer) :
    findSelective ask id loader name s =
      loadOwned id loader (loader.policy.shouldModify name) name s := by
  rw [findSelective, h, Policy.shouldModify]
  cases hdecide : loader.policy.decide name with
  | modify => rfl
  | loadUnmodified => rfl
  | defer => exact absurd hdecide hown

theorem answer_loadDeferred (ask : Asking) (id : LoaderId) (loader : SelectiveLoader)
    (name : String) (s : Session) :
    (loadDeferred ask id loader name s).1 = (ask loader.deferred name s).1 := by
  rw [loadDeferred]
  split
  · next h => rw [h]
  · next h => rw [h]

/-- A loader that asks another one has no other answer than that one. -/
theorem AsksFor.answer_findSelective {ask : Asking} (h : AsksFor s name id below)
    (here : s.loader? id = some (.selective loader)) :
    (findSelective ask id loader name s).1 = (ask below name s).1 := by
  cases h with
  | routed there first =>
    obtain rfl := Loader.selective.inj (Option.some.inj (here.symm.trans there))
    rw [findSelective_of_claim first]
    rfl
  | deferred there unclaimed decided =>
    obtain rfl := Loader.selective.inj (Option.some.inj (here.symm.trans there))
    rw [findSelective_of_defer unclaimed decided, answer_loadDeferred]

theorem loadAsking_of_free (ask : Asking) (here : s.loader? id = some (.selective loader))
    (hfree : loader.table.find? name = none) :
    loadAsking ask id name s = findSelective ask id loader name s := by
  rw [loadAsking, here]
  simp only [loadFromSelective, hfree]

theorem TurnsTo.answer_loadAsking {ask : Asking} (h : TurnsTo s name id below) :
    (loadAsking ask id name s).1 = (ask below name s).1 := by
  obtain ⟨loader, here⟩ := h.asks.exists_selective
  have hfree := h.free
  rw [tableOf_of_selective here] at hfree
  rw [loadAsking_of_free ask here hfree, h.asks.answer_findSelective here]

theorem TurnsTo.value_lt (h : TurnsTo s name id below) : id.value < s.loaders.length := by
  obtain ⟨_, here⟩ := h.asks.exists_selective
  exact value_lt_of_loader? here

/-- Only selective loaders turn to others. -/
theorem Ends.of_host {host : HostLoader} (here : s.loader? id = some (.host host)) :
    Ends s name id := by
  refine Acc.intro id fun _ hturns => ?_
  obtain ⟨_, there⟩ := hturns.asks.exists_selective
  rw [here] at there
  cases there

/-! ### Searches that end -/

theorem Ends.not_transGen (h : Ends s name id) : ¬ Relation.TransGen (TurnsTo s name) id id := by
  induction h with
  | intro id _ ih =>
    intro hcycle
    obtain ⟨next, hnext, hback⟩ := Relation.TransGen.head'_iff.mp hcycle
    -- a cycle through `id` is one through the loader that `id` turns to
    exact ih next hnext (Relation.TransGen.tail' hback hnext)

/-- Loaders that turn to each other are all different. -/
theorem Ends.nodup_of_isChain (h : Ends s name id) {line : List LoaderId}
    (hline : List.IsChain (TurnsTo s name) (id :: line)) : (id :: line).Nodup := by
  induction line generalizing id with
  | nil => exact List.nodup_singleton id
  | cons next line ih =>
    obtain ⟨hturns, hrest⟩ := List.isChain_cons_cons.mp hline
    refine List.nodup_cons.mpr ⟨fun hagain => ?_, ih (h.inv hturns) hrest⟩
    have hreach : Relation.ReflTransGen (TurnsTo s name) next id := by
      have hpairs := (hrest.imp fun _ _ => Relation.TransGen.single).pairwise
      rcases List.mem_cons.mp hagain with rfl | hmem
      · exact .refl
      · exact (List.rel_of_pairwise_cons hpairs hmem).to_reflTransGen
    exact h.not_transGen (Relation.TransGen.head' hturns hreach)

/-- What a loader answers depends only on the answers of the one that it turns to. -/
theorem loadAsking_congr {ask ask' : Asking}
    (h : ∀ below, TurnsTo s name id below → ask below name s = ask' below name s) :
    loadAsking ask id name s = loadAsking ask' id name s := by
  rw [loadAsking, loadAsking]
  split
  · rfl
  · next loader here =>
    rw [loadFromSelective, loadFromSelective]
    split
    · rfl
    · next hfree =>
      have hturns : ∀ below, AsksFor s name id below → TurnsTo s name id below :=
        fun _ => TurnsTo.mk (by rw [tableOf_of_selective here]; exact hfree)
      rw [findSelective, findSelective]
      split
      · next interceptor hfirst =>
        cases interceptor with
        | route route => simp only [answerClaim, h _ (hturns _ (.routed here hfirst))]
        | refuse _ _ => rfl
      · next hnone =>
        split
        · rfl
        · rfl
        · next hdefer =>
          simp only [loadDeferred, h _ (hturns _ (.deferred here hnone hdefer))]
  · rfl

/-- Asking deeper changes nothing, unless that many loaders turn to each other. By induction on the
depth. -/
theorem exists_line_or_settled (name : String) (depth : Nat) (id : LoaderId) :
    (∃ line : List LoaderId, line.length = depth ∧
      List.IsChain (TurnsTo s name) (id :: line) ∧
        ∀ passed ∈ id :: line, passed.value < s.loaders.length) ∨
    ∀ deeper, depth ≤ deeper → loadWithin deeper id name s = loadWithin depth id name s := by
  induction depth generalizing id with
  | zero =>
    by_cases hlt : id.value < s.loaders.length
    · exact .inl ⟨[], rfl, .singleton id, by simpa using hlt⟩
    · refine .inr fun deeper _ => ?_
      have hnone : s.loader? id = none := List.getElem?_eq_none (Nat.le_of_not_lt hlt)
      cases deeper with
      | zero => rfl
      | succ deeper => simp only [loadWithin, loadAsking, hnone]
  | succ depth ih =>
    by_cases h : ∃ below, TurnsTo s name id below ∧ ∃ line : List LoaderId,
        line.length = depth ∧ List.IsChain (TurnsTo s name) (below :: line) ∧
        ∀ passed ∈ below :: line, passed.value < s.loaders.length
    · obtain ⟨below, hturns, line, hlength, hline, hvalues⟩ := h
      refine .inl ⟨below :: line, by rw [List.length_cons, hlength],
        List.isChain_cons_cons.mpr ⟨hturns, hline⟩, fun passed hpassed => ?_⟩
      rcases List.mem_cons.mp hpassed with rfl | hmem
      · exact hturns.value_lt
      · exact hvalues passed hmem
    · refine .inr fun deeper hdeeper => ?_
      obtain ⟨deeper, rfl⟩ := Nat.exists_eq_add_one.mpr (Nat.zero_lt_of_lt hdeeper)
      refine loadAsking_congr fun below hturns => ?_
      rcases ih below with hline | hsettled
      · exact absurd ⟨below, hturns, hline⟩ h
      · exact hsettled deeper (Nat.le_of_succ_le_succ hdeeper)

/-- What a loader asks of another one is what the session asks of that one: the loader itself takes
up one of the depth. -/
theorem Ends.loadWithin_below_eq (h : Ends s name id) (hturns : TurnsTo s name id below)
    {depth : Nat} (hdepth : s.loaders.length = depth + 1) :
    loadWithin depth below name s = load below name s := by
  rcases exists_line_or_settled (s := s) name depth below with
    ⟨line, hlength, hline, hvalues⟩ | hsettled
  · have hchain := List.isChain_cons_cons.mpr ⟨hturns, hline⟩
    have hall : ∀ passed ∈ id :: below :: line, passed.value < s.loaders.length := by
      intro passed hpassed
      rcases List.mem_cons.mp hpassed with rfl | hmem
      · exact hturns.value_lt
      · exact hvalues passed hmem
    have hle := length_le_of_nodup (h.nodup_of_isChain hchain) hall
    rw [List.length_cons, List.length_cons, hlength, hdepth] at hle
    exact absurd hle (Nat.not_succ_le_self _)
  · exact (hsettled _ (by rw [hdepth]; exact Nat.le_succ depth)).symm

/-- A loader answers out of what it has, and out of the answers of others as they would be to anyone
else. -/
theorem load_eq_loadAsking (h : Ends s name id) : load id name s = loadAsking load id name s := by
  cases hlength : s.loaders.length with
  | zero =>
    have hnone : s.loader? id = none := List.getElem?_eq_none (by omega)
    simp only [load, hlength, loadWithin, loadAsking, hnone]
  | succ depth =>
    rw [load, hlength, loadWithin]
    exact loadAsking_congr fun below hturns => h.loadWithin_below_eq hturns hlength

/-! ### Searches without an end -/

/-- Loaders that turn to each other without end have no answer. By induction on the depth. -/
theorem answer_loadWithin_of_endless (h : ¬ Ends s name id) (depth : Nat) :
    (loadWithin depth id name s).1 = .error (.classNotFound name) := by
  induction depth generalizing id with
  | zero => rfl
  | succ depth ih =>
    have hnext : ∃ below, TurnsTo s name id below ∧ ¬ Ends s name below := by
      by_contra hall
      refine h (Acc.intro id fun below hturns => by_contra fun hbelow => ?_)
      exact hall ⟨below, hturns, hbelow⟩
    obtain ⟨below, hturns, hbelow⟩ := hnext
    rw [loadWithin, hturns.answer_loadAsking, ih hbelow]

/-- A loader that turns to another one answers what that one answers. -/
theorem answer_load_of_turnsTo (h : TurnsTo s name id below) :
    (load id name s).1 = (load below name s).1 := by
  by_cases hends : Ends s name id
  · rw [load_eq_loadAsking hends, h.answer_loadAsking]
  · have hbelow : ¬ Ends s name below := fun hends' => hends <| Acc.intro id fun other hother => by
      rwa [← h.asks.unique hother.asks]
    rw [load, load, answer_loadWithin_of_endless hends, answer_loadWithin_of_endless hbelow]

end Session

end Understudy
