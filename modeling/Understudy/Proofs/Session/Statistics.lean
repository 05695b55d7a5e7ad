import Understudy.Proofs.Session.Bookkeeping
import Understudy.Proofs.Session.Changes

/-!
What the counts of a selective loader say about all that has ever been asked of it, by whomever. The
classes counted as defined are those in its table, but for the ones that were defined directly. The
requests counted as not found are those that it failed for want of the class, but for the ones that
an interceptor had claimed. Main statement: `run_statistics`.
-/

namespace Understudy

theorem Keyed.mem_keys_iff_has {α : Type} {items : Keyed α} {key : String} :
    key ∈ items.map Prod.fst ↔ items.has key = true := by
  simp [has, find?, List.find?_isSome]

/-- A request to a selective loader, made by whomever: whether an interceptor of the loader claims
the name, and what it answered. -/
structure Inquiry where
  loader : LoaderId
  name : String
  claimed : Bool
  answer : Except Error DefinedClass

/-- The class was missing. -/
def Inquiry.missed (inquiry : Inquiry) : Bool :=
  match inquiry.answer with
  | .error e => e.isNotFound
  | .ok _ => false

/-- The reply is to a direct definition by the loader, and the class has been defined. -/
def Reply.defines (id : LoaderId) (reply : Reply) : Bool :=
  match reply.request with
  | .define other _ => decide (other = id) && reply.answer.isOk
  | _ => false

namespace SelectiveLoader

/-- Whether some interceptor claims a name. -/
def claims (loader : SelectiveLoader) (name : String) : Bool :=
  loader.interceptors.any (·.claims name)

/-- The loader that is asked for a name that there is no class of. -/
def asks? (loader : SelectiveLoader) (name : String) : Option LoaderId :=
  match loader.interceptors.find? (·.claims name) with
  | some interceptor => interceptor.target?
  | none => if loader.policy.decide name = .defer then some loader.deferred else none

variable {loader : SelectiveLoader} {name : String}

theorem claims_of_find? {first : Interceptor}
    (h : loader.interceptors.find? (·.claims name) = some first) : loader.claims name = true := by
  have hclaims := List.find?_some h
  exact List.any_eq_true.mpr ⟨first, List.mem_of_find?_eq_some h, hclaims⟩

theorem claims_of_unclaimed (h : loader.interceptors.find? (·.claims name) = none) :
    loader.claims name = false := by
  rw [claims, List.any_eq_false]
  exact List.find?_eq_none.mp h

end SelectiveLoader

namespace Session

/-- The inquiries of a search: the loader itself is asked, and then whoever it asks. -/
def searching (ask : LoaderId → List Inquiry) (id : LoaderId) (loader : SelectiveLoader)
    (name : String) (answer : Except Error DefinedClass) : List Inquiry :=
  ⟨id, name, loader.claims name, answer⟩ :: ((loader.asks? name).map ask).getD []

/-- The inquiries of a load when at most `depth` loaders may ask each other in turn. -/
def inquiriesWithin : Nat → Session → LoaderId → String → List Inquiry
  | 0, _, _, _ => []
  | depth + 1, s, id, name =>
    match s.loader? id with
    | some (.selective loader) =>
      let answer := (loadWithin (depth + 1) id name s).1
      if loader.table.has name then [⟨id, name, loader.claims name, answer⟩]
      else searching (inquiriesWithin depth s · name) id loader name answer
    | _ => []

/-- Who is asked for a class because of a request, and with which answers. -/
def inquiries (s : Session) : Request → List Inquiry
  | .load id name => inquiriesWithin s.loaders.length s id name
  | .find id name =>
    match s.loader? id with
    | some (.selective loader) =>
      searching (inquiriesWithin s.loaders.length s · name) id loader name (s.find id name).1
    | _ => []
  | .define _ _ => []

/-- All inquiries of a run. -/
def journal : List Operation → Session → List Inquiry
  | [], _ => []
  | .request request :: rest, s => s.inquiries request ++ journal rest (request.perform s).2
  | .change change :: rest, s => journal rest (change.perform s)

/-- The inquiries that were made to a loader. -/
def madeTo (id : LoaderId) (inquiries : List Inquiry) : List Inquiry :=
  inquiries.filter fun inquiry => decide (inquiry.loader = id)

/-- The counts of a loader. There are none where there is no loader. -/
def tallyOf (s : Session) (id : LoaderId) : Tally := ((s.loader? id).map (·.stats)).getD {}

variable {s t u : Session} {id below asked : LoaderId} {name : String}
  {loader other after : SelectiveLoader} {o : Outcome DefinedClass} {made : List Inquiry}

/-! ### Who is asked -/

theorem asks?_eq_some_iff (here : s.loader? id = some (.selective loader)) :
    loader.asks? name = some below ↔ AsksFor s name id below := by
  rw [SelectiveLoader.asks?]
  constructor
  · intro h
    split at h
    · next interceptor hfirst =>
      cases interceptor with
      | route route =>
        obtain rfl := Option.some.inj h
        exact .routed here hfirst
      | refuse _ _ => cases h
    · next hnone =>
      split at h
      · next hdefer =>
        obtain rfl := Option.some.inj h
        exact .deferred here hnone hdefer
      · cases h
  · rintro (⟨there, first⟩ | ⟨there, unclaimed, decided⟩)
    · obtain rfl := Loader.selective.inj (Option.some.inj (here.symm.trans there))
      simp only [first, Interceptor.target?]
    · obtain rfl := Loader.selective.inj (Option.some.inj (here.symm.trans there))
      simp only [unclaimed, decided, if_true]

/-- Every inquiry is made to a selective loader on the way of the search. -/
def OnTheWay (s : Session) (name : String) (id : LoaderId) (made : List Inquiry) : Prop :=
  ∀ inquiry ∈ made, Reaches s name id inquiry.loader ∧
    ∃ loader, s.loader? inquiry.loader = some (.selective loader)

theorem onTheWay_searching {ask : LoaderId → List Inquiry}
    (here : s.loader? id = some (.selective loader))
    (hask : ∀ below, OnTheWay s name below (ask below)) (answer : Except Error DefinedClass) :
    OnTheWay s name id (searching ask id loader name answer) := by
  intro inquiry hmem
  rcases List.mem_cons.mp hmem with rfl | hbelow
  · exact ⟨.refl, loader, here⟩
  · cases hasks : loader.asks? name with
    | none =>
      rw [hasks] at hbelow
      cases hbelow
    | some below =>
      rw [hasks] at hbelow
      obtain ⟨hreach, hselective⟩ := hask below inquiry hbelow
      exact ⟨hreach.head ((asks?_eq_some_iff here).mp hasks), hselective⟩

/-- By induction on how many loaders may ask each other in turn. -/
theorem onTheWay_inquiriesWithin (depth : Nat) (id : LoaderId) :
    OnTheWay s name id (inquiriesWithin depth s id name) := by
  induction depth generalizing id with
  | zero => exact fun _ hmem => nomatch hmem
  | succ depth ih =>
    rw [inquiriesWithin]
    split
    · next loader here =>
      simp only
      split
      · intro inquiry hmem
        rw [List.mem_singleton.mp hmem]
        exact ⟨.refl, loader, here⟩
      · exact onTheWay_searching here ih _
    · exact fun _ hmem => nomatch hmem

theorem onTheWay_inquiries (s : Session) (request : Request) :
    OnTheWay s request.name request.loader (s.inquiries request) := by
  cases request with
  | load id name => exact onTheWay_inquiriesWithin _ id
  | find id name =>
    rw [inquiries]
    split
    · next loader here => exact onTheWay_searching here (onTheWay_inquiriesWithin _) _
    · exact fun _ hmem => nomatch hmem
  | define _ _ => exact fun _ hmem => nomatch hmem

theorem OnTheWay.madeTo_eq_nil (h : OnTheWay s name asked made) (hid : ¬ Reaches s name asked id) :
    madeTo id made = [] := by
  refine List.filter_eq_nil_iff.mpr fun inquiry hmem hloader => hid ?_
  rw [← of_decide_eq_true hloader]
  exact (h inquiry hmem).1

/-! ### What becomes of a loader that may be asked -/

/-- A loader was not asked and is as it was, or it was asked once, gave the answer, and is left as
such a search ends, or with one more hit. -/
inductive Inquired (id : LoaderId) (name : String) (loader : SelectiveLoader)
    (o : Outcome DefinedClass) (made : List Inquiry) : Prop
  | passed (none : madeTo id made = []) (same : o.2.loader? id = some (.selective loader))
  | ended {after : SelectiveLoader}
    (one : madeTo id made = [⟨id, name, loader.claims name, o.1⟩])
    (there : o.2.loader? id = some (.selective after)) (ends : EndsIn name loader o.1 after)
  | hit {c : DefinedClass} (one : madeTo id made = [⟨id, name, loader.claims name, .ok c⟩])
    (there : o.2.loader? id =
      some (.selective { loader with stats := loader.stats.count .cacheHit }))

theorem Inquired.congr {o' : Outcome DefinedClass} {made' : List Inquiry}
    (h : Inquired id name loader o made) (hanswer : o'.1 = o.1)
    (hloader : o'.2.loader? id = o.2.loader? id) (hmade : madeTo id made' = madeTo id made) :
    Inquired id name loader o' made' := by
  cases h with
  | passed none same => exact .passed (hmade.trans none) (hloader.trans same)
  | ended one there ends =>
    exact .ended (by rw [hmade, one, hanswer]) (hloader.trans there) (by rwa [hanswer])
  | hit one there => exact .hit (hmade.trans one) (hloader.trans there)

theorem madeTo_searching_self (h : NotRecalled s id)
    (here : s.loader? id = some (.selective loader)) {ask : LoaderId → List Inquiry}
    (hask : ∀ below, OnTheWay s name below (ask below)) (answer : Except Error DefinedClass) :
    madeTo id (searching ask id loader name answer) =
      [⟨id, name, loader.claims name, answer⟩] := by
  have hrest : madeTo id (((loader.asks? name).map ask).getD []) = [] := by
    cases hasks : loader.asks? name with
    | none => rfl
    | some below =>
      have hbelow := (asks?_eq_some_iff here).mp hasks
      exact (hask below).madeTo_eq_nil fun hback => h name (Relation.TransGen.head' hbelow hback)
  rw [searching, madeTo, List.filter_cons_of_pos (by simp)]
  exact congrArg (List.cons _) hrest

theorem madeTo_searching_of_ne {ask : LoaderId → List Inquiry} (hne : asked ≠ id)
    (answer : Except Error DefinedClass) :
    madeTo id (searching ask asked other name answer) =
      madeTo id (((other.asks? name).map ask).getD []) := by
  rw [searching, madeTo, List.filter_cons_of_neg (by simpa using hne), madeTo]

/-- A search that passes over the table of the loader that is asked first. -/
theorem inquired_findSelective (h : NotRecalled s id)
    (here : s.loader? id = some (.selective loader))
    (there : s.loader? asked = some (.selective other)) {depth : Nat}
    (hbelow : ∀ below, Inquired id name loader (loadWithin depth below name s)
      (inquiriesWithin depth s below name)) :
    Inquired id name loader (findSelective (loadWithin depth) asked other name s)
      (searching (inquiriesWithin depth s · name) asked other name
        (findSelective (loadWithin depth) asked other name s).1) := by
  by_cases hasked : asked = id
  · subst hasked
    obtain rfl := Loader.selective.inj (Option.some.inj (here.symm.trans there))
    obtain ⟨after, hafter, hends⟩ := booked_findSelective here fun below hasks =>
      h.loader?_loadWithin hasks depth
    exact .ended (madeTo_searching_self h here (onTheWay_inquiriesWithin depth) _) hafter hends
  · cases hasks : other.asks? name with
    | none =>
      have halone : ∀ below, ¬ AsksFor s name asked below := fun below hbelow => by
        rw [(asks?_eq_some_iff there).mpr hbelow] at hasks
        cases hasks
      have hnever : ¬ Reaches s name asked id := fun hreach =>
        hasked (hreach.eq_of_alone halone).symm
      refine .passed ?_ ?_
      · rw [madeTo_searching_of_ne hasked, hasks]
        rfl
      · rw [← here]
        exact (searches_findSelective (searchesOnTheWay_loadWithin depth) there).loader?_eq hnever
    | some below =>
      have hturns : AsksFor s name asked below := (asks?_eq_some_iff there).mp hasks
      refine (hbelow below).congr (hturns.answer_findSelective there) ?_ ?_
      · rcases hturns.session_findSelective there with hsame | ⟨event, hcount⟩
        · rw [hsame]
        · rw [hcount, loader?_count_of_ne _ event (Ne.symm hasked)]
      · rw [madeTo_searching_of_ne hasked, hasks]
        rfl

/-- What is no selective loader does nothing to one. -/
theorem inquired_of_plain {ask : Asking} (hask : SearchesOnTheWay ask)
    (here : s.loader? id = some (.selective loader))
    (hplain : ∀ other, s.loader? asked ≠ some (.selective other)) :
    Inquired id name loader (ask asked name s) [] := by
  refine .passed rfl ?_
  rw [← here]
  refine (hask asked name s).loader?_eq fun hreach => ?_
  have hself : id = asked := hreach.eq_of_alone fun below hasks => by
    obtain ⟨other, there⟩ := hasks.exists_selective
    exact hplain other there
  exact hplain loader (hself ▸ here)

/-- By induction on how many loaders may ask each other in turn. -/
theorem inquired_loadWithin (h : NotRecalled s id)
    (here : s.loader? id = some (.selective loader)) (depth : Nat) (asked : LoaderId) :
    Inquired id name loader (loadWithin depth asked name s)
      (inquiriesWithin depth s asked name) := by
  induction depth generalizing asked with
  | zero => exact .passed rfl here
  | succ depth ih =>
    rw [inquiriesWithin]
    split
    · next other there =>
      cases hfound : other.table.find? name with
      | none =>
        have hhas : ¬ other.table.has name = true := by simp [Keyed.has, hfound]
        simp only [if_neg hhas]
        rw [loadWithin, loadAsking_of_free _ there hfound]
        exact inquired_findSelective h here there ih
      | some c =>
        have hhas : other.table.has name = true := by simp [Keyed.has, hfound]
        have hload : loadWithin (depth + 1) asked name s = (.ok c, s.count asked .cacheHit) :=
          loadAsking_of_find? (by rwa [tableOf_of_selective there]) _
        simp only [if_pos hhas, hload]
        by_cases hasked : asked = id
        · subst hasked
          obtain rfl := Loader.selective.inj (Option.some.inj (here.symm.trans there))
          have hone : madeTo asked [⟨asked, name, loader.claims name, .ok c⟩] =
              [⟨asked, name, loader.claims name, .ok c⟩] := by simp [madeTo]
          exact .hit hone (loader?_count_self here .cacheHit)
        · refine .passed (by simp [madeTo, hasked]) ?_
          rw [loader?_count_of_ne s .cacheHit (Ne.symm hasked), here]
    · next hplain =>
      exact inquired_of_plain (searchesOnTheWay_loadWithin (depth + 1)) here hplain

theorem inquired_find (h : NotRecalled s id) (here : s.loader? id = some (.selective loader))
    (asked : LoaderId) (name : String) :
    Inquired id name loader (find asked name s) (s.inquiries (.find asked name)) := by
  rw [inquiries]
  split
  · next other there =>
    have hfind : find asked name s =
        findSelective (loadWithin s.loaders.length) asked other name s := by rw [find, there]
    rw [hfind]
    exact inquired_findSelective h here there (inquired_loadWithin h here _)
  · next hplain =>
    have hask : SearchesOnTheWay find := searches_find
    exact inquired_of_plain hask here hplain

/-! ### What the counts say -/

/-- How many of the inquiries were in vain, for want of the class. -/
def misses (made : List Inquiry) : Nat := made.countP Inquiry.missed

/-- How many of these were about a name that an interceptor claims. -/
def claimedMisses (made : List Inquiry) : Nat :=
  made.countP fun inquiry => inquiry.missed && inquiry.claimed

/-- From one session to another, the table and the counts of a loader have kept step with direct
definitions and with inquiries that were made to it. -/
structure KeepsStep (id : LoaderId) (defined : Nat) (made : List Inquiry) (s t : Session) :
    Prop where
  names : (t.tableOf id).length + (s.tallyOf id).defined =
    (s.tableOf id).length + (t.tallyOf id).defined + defined
  misses : (t.tallyOf id).notFound + claimedMisses (madeTo id made) =
    (s.tallyOf id).notFound + misses (madeTo id made)

theorem tallyOf_of_selective (here : s.loader? id = some (.selective loader)) :
    s.tallyOf id = loader.stats := by
  rw [tallyOf, here]
  rfl

theorem KeepsStep.of_same (htable : t.tableOf id = s.tableOf id)
    (htally : t.tallyOf id = s.tallyOf id) (hnone : madeTo id made = []) :
    KeepsStep id 0 made s t := by
  constructor
  · rw [htable, htally]
    omega
  · rw [htally, hnone]
    rfl

theorem KeepsStep.of_loader?_eq (hsame : t.loader? id = s.loader? id)
    (hnone : madeTo id made = []) : KeepsStep id 0 made s t :=
  .of_same (by rw [tableOf, hsame, tableOf]) (by rw [tallyOf, hsame, tallyOf]) hnone

theorem KeepsStep.trans {defined defined' : Nat} {made' : List Inquiry}
    (h : KeepsStep id defined made s t) (k : KeepsStep id defined' made' t u) :
    KeepsStep id (defined + defined') (made ++ made') s u := by
  have hsplit : madeTo id (made ++ made') = madeTo id made ++ madeTo id made' :=
    List.filter_append ..
  constructor
  · have hfirst := h.names
    have hsecond := k.names
    omega
  · have hfirst := h.misses
    have hsecond := k.misses
    rw [hsplit, claimedMisses, Session.misses, List.countP_append, List.countP_append]
    rw [claimedMisses, Session.misses] at hfirst hsecond
    omega

/-- A miss is counted, unless the name was claimed. -/
theorem EndsIn.misses {answer : Except Error DefinedClass} (h : EndsIn name loader answer after)
    (id : LoaderId) :
    after.stats.notFound + claimedMisses [⟨id, name, loader.claims name, answer⟩] =
      loader.stats.notFound + Session.misses [⟨id, name, loader.claims name, answer⟩] := by
  cases h with
  | claimed first =>
    rw [SelectiveLoader.claims_of_find? first]
    simp [claimedMisses, Session.misses, List.countP_cons, Tally.count]
  | defined _ _ made =>
    have hcount : ∀ event, event = .transformed ∨ event = .unmodified →
        (loader.stats.count event).notFound = loader.stats.notFound := by
      rintro _ (rfl | rfl) <;> rfl
    simp only [hcount _ made]
    rfl
  | deferred _ => rfl
  | missed unclaimed missing =>
    rw [SelectiveLoader.claims_of_unclaimed unclaimed]
    simp [claimedMisses, Session.misses, Inquiry.missed, missing, Tally.count]
  | failed unclaimed otherwise =>
    simp [claimedMisses, Session.misses, Inquiry.missed, otherwise]

theorem Inquired.keepsStep (h : Inquired id name loader o made)
    (here : s.loader? id = some (.selective loader)) : KeepsStep id 0 made s o.2 := by
  cases h with
  | passed none same => exact .of_loader?_eq (same.trans here.symm) none
  | ended one there ends =>
    constructor
    · rw [tableOf_of_selective there, tableOf_of_selective here, tallyOf_of_selective there,
        tallyOf_of_selective here]
      exact ends.tallied.names
    · rw [tallyOf_of_selective there, tallyOf_of_selective here, one]
      exact ends.misses id
  | hit one there =>
    constructor
    · rw [tableOf_of_selective there, tableOf_of_selective here, tallyOf_of_selective there,
        tallyOf_of_selective here]
      rfl
    · rw [tallyOf_of_selective there, tallyOf_of_selective here, one]
      rfl

/-! ### Requests and changes -/

/-- The identity is not that of a loader of another kind. -/
def OpenFor (s : Session) (id : LoaderId) : Prop :=
  ∀ l, s.loader? id = some l → l.directions.isSome = true

theorem OpenFor.cases (h : OpenFor s id) :
    s.loader? id = none ∨ ∃ loader, s.loader? id = some (.selective loader) := by
  rcases here : s.loader? id with _ | ⟨_ | loader | _⟩
  · exact .inl rfl
  · cases h _ here
  · exact .inr ⟨loader, rfl⟩
  · cases h _ here

/-- A direct definition leaves all other loaders as they are. -/
theorem loader?_define_of_ne (hne : id ≠ asked) (d : Definition) (s : Session) :
    (define asked d s).2.loader? id = s.loader? id := by
  cases hanswer : (define asked d s).1 with
  | error e => rw [define_of_error hanswer]
  | ok c =>
    obtain ⟨-, hloader, -, -, -⟩ := tables_of_define hanswer
    have hentered : (s.enter c).loader? id = s.loader? id :=
      loader?_enter_of_ne s (by rwa [hloader])
    have hkept : ((s.enter c).keepBytes asked c).loader? id = (s.enter c).loader? id :=
      loader?_updateLoader_of_ne ((s.enter c).addEntry _).2 _ hne
    obtain ⟨-, -, hafter | hafter⟩ := define_of_ok hanswer
    · rw [hafter, hentered]
    · rw [hafter, hkept, hentered]

theorem keepsStep_define (here : s.loader? id = some (.selective loader)) (asked : LoaderId)
    (d : Definition) :
    KeepsStep id (Reply.defines id ⟨.define asked d, (s.define asked d).1⟩).toNat [] s
      (s.define asked d).2 := by
  by_cases hasked : asked = id
  · subst hasked
    cases hanswer : (s.define asked d).1 with
    | error e =>
      have hdefines : Reply.defines asked ⟨.define asked d, .error e⟩ = false :=
        Bool.and_false _
      rw [hdefines, define_of_error hanswer]
      exact .of_loader?_eq rfl rfl
    | ok c =>
      have hdefines : Reply.defines asked ⟨.define asked d, .ok c⟩ = true := by
        simp [Reply.defines, Except.isOk, Except.toBool]
      obtain ⟨after, there, hstats, htable⟩ := exists_loader?_define here hanswer
      obtain ⟨-, -, -, hfree, -⟩ := tables_of_define hanswer
      rw [tableOf_of_selective here] at hfree
      constructor
      · rw [tableOf_of_selective there, tableOf_of_selective here, tallyOf_of_selective there,
          tallyOf_of_selective here, hdefines, hstats, htable, Keyed.length_insert hfree,
          Bool.toNat_true]
        omega
      · rw [tallyOf_of_selective there, tallyOf_of_selective here, hstats]
        rfl
  · have hdefines : Reply.defines id ⟨.define asked d, (s.define asked d).1⟩ = false := by
      simp [Reply.defines, hasked]
    rw [hdefines]
    exact .of_loader?_eq (loader?_define_of_ne (Ne.symm hasked) d s) rfl

/-- Where there is no loader, nothing comes of a request. -/
theorem keepsStep_perform_of_none (hnone : s.loader? id = none) (request : Request) :
    KeepsStep id (Reply.defines id ⟨request, (request.perform s).1⟩).toNat (s.inquiries request) s
      (request.perform s).2 := by
  have hstill : (request.perform s).2.loader? id = none := by
    have hsame := sameDirections_perform request s id
    rwa [hnone, Option.map_none, Option.map_eq_none_iff] at hsame
  have hdefines : Reply.defines id ⟨request, (request.perform s).1⟩ = false := by
    cases request with
    | load _ _ => rfl
    | find _ _ => rfl
    | define asked d =>
      by_cases hasked : asked = id
      · subst hasked
        have hanswer : ((Request.define asked d).perform s).1 = .error (.classNotFound d.name) := by
          rw [Request.perform, define, hnone]
        rw [hanswer]
        exact Bool.and_false _
      · simp [Reply.defines, hasked]
  have hmade : madeTo id (s.inquiries request) = [] := by
    refine List.filter_eq_nil_iff.mpr fun inquiry hmem hloader => ?_
    obtain ⟨-, loader, here⟩ := onTheWay_inquiries s request inquiry hmem
    rw [of_decide_eq_true hloader, hnone] at here
    cases here
  rw [hdefines]
  exact .of_loader?_eq (hstill.trans hnone.symm) hmade

theorem keepsStep_perform (h : NotRecalled s id) (hopen : OpenFor s id) (request : Request) :
    KeepsStep id (Reply.defines id ⟨request, (request.perform s).1⟩).toNat (s.inquiries request) s
      (request.perform s).2 := by
  rcases hopen.cases with hnone | ⟨loader, here⟩
  · exact keepsStep_perform_of_none hnone request
  · cases request with
    | load asked name => exact (inquired_loadWithin h here _ asked).keepsStep here
    | find asked name => exact (inquired_find h here asked name).keepsStep here
    | define asked d => exact keepsStep_define here asked d

/-- A loader of another kind stays one through a request, and through a change. -/
theorem OpenFor.of_perform {request : Request} (h : OpenFor (request.perform s).2 id) :
    OpenFor s id := by
  intro l here
  have hsame := sameDirections_perform request s id
  rw [here, Option.map_some] at hsame
  obtain ⟨l', there, heq⟩ := Option.map_eq_some_iff.mp hsame
  rw [← heq]
  exact h l' there

theorem OpenFor.of_change {change : Change} (h : OpenFor (change.perform s) id) :
    OpenFor s id := by
  intro l here
  have hchange := ofChange_perform change s id
  rw [here] at hchange
  generalize there : (change.perform s).loader? id = after at hchange
  cases hchange with
  | adjusted adjusted => rw [← adjusted.kind]; exact h _ there

/-- A change adds nothing to what has been counted. -/
theorem keepsStep_change (change : Change) (s : Session) (id : LoaderId) :
    KeepsStep id 0 [] s (change.perform s) := by
  have hchange := ofChange_perform change s id
  generalize here : s.loader? id = before at hchange
  generalize there : (change.perform s).loader? id = after at hchange
  cases hchange with
  | absent => exact .of_loader?_eq (there.trans here.symm) rfl
  | added new =>
    refine .of_same ?_ ?_ rfl
    · rw [tableOf, tableOf, there, here]
      exact new.table
    · rw [tallyOf, tallyOf, there, here]
      exact new.stats
  | adjusted adjusted =>
    refine .of_same ?_ ?_ rfl
    · rw [tableOf, tableOf, there, here]
      exact adjusted.table
    · rw [tallyOf, tallyOf, there, here]
      exact adjusted.stats

/-- By induction on the run. -/
theorem keepsStep_run {ops : List Operation} (horderly : Orderly s)
    (horder : inOrder ops s = true) (hopen : OpenFor (run ops s).2 id) :
    OpenFor s id ∧ KeepsStep id ((run ops s).1.countP (·.defines id)) (journal ops s) s
      (run ops s).2 := by
  induction ops generalizing s with
  | nil => exact ⟨hopen, .of_loader?_eq rfl rfl⟩
  | cons op rest ih =>
    cases op with
    | request request =>
      have hnext : Orderly (request.perform s).2 := orderly_run horderly [.request request] rfl
      obtain ⟨hopen', hrest⟩ := ih hnext horder hopen
      have hfirst := hopen'.of_perform
      refine ⟨hfirst, ?_⟩
      have hstep := keepsStep_perform (horderly.notRecalled id) hfirst request
      have hcount : (run (.request request :: rest) s).1.countP (·.defines id) =
          (Reply.defines id ⟨request, (request.perform s).1⟩).toNat +
            (run rest (request.perform s).2).1.countP (·.defines id) := by
        rw [run, List.countP_cons, Nat.add_comm]
        cases Reply.defines id ⟨request, (request.perform s).1⟩ <;> rfl
      rw [hcount]
      exact hstep.trans hrest
    | change change =>
      obtain ⟨hmay, hlater⟩ := Bool.and_eq_true_iff.mp horder
      have hone : inOrder [.change change] s = true := by
        rw [inOrder, hmay]
        rfl
      have hnext : Orderly (change.perform s) := orderly_run horderly [.change change] hone
      obtain ⟨hopen', hrest⟩ := ih hnext hlater hopen
      refine ⟨hopen'.of_change, ?_⟩
      have hboth := (keepsStep_change change s id).trans hrest
      rwa [Nat.zero_add] at hboth

/-- What a selective loader has counted when a run is over, whatever it was, and whoever asked it.
-/
theorem run_statistics (files : FileTree) {ops : List Operation}
    (horder : inOrder ops (start files) = true)
    (here : (run ops (start files)).2.loader? id = some (.selective loader)) :
    let asked := madeTo id (journal ops (start files))
    (∃ names : List String, names.Nodup ∧
      (∀ name, name ∈ names ↔ (run ops (start files)).2.isDefined id name = true) ∧
      loader.stats.defined + (run ops (start files)).1.countP (·.defines id) = names.length) ∧
    loader.stats.notFound + claimedMisses asked = misses asked := by
  intro asked
  have hopen : OpenFor (run ops (start files)).2 id := by
    intro l there
    obtain rfl := Option.some.inj (here.symm.trans there)
    rfl
  obtain ⟨hstart, hkeeps⟩ := keepsStep_run (orderly_start files) horder hopen
  have hnone : (start files).loader? id = none := by
    rcases hstart.cases with hnone | ⟨other, there⟩
    · exact hnone
    · have hlast : Loader.selective other = .host { entries := [] } :=
        List.mem_singleton.mp (List.mem_of_getElem? there)
      cases hlast
  have hempty : (start files).tableOf id = [] := by
    rw [tableOf, hnone]
    rfl
  have hnothing : (start files).tallyOf id = {} := by
    rw [tallyOf, hnone]
    rfl
  have hnames := hkeeps.names
  have hmisses := hkeeps.misses
  rw [tallyOf_of_selective here, hnothing] at hnames hmisses
  rw [hempty] at hnames
  have hconsistent := (consistent_start files).grows (grows_run ops (start files))
  refine ⟨⟨((run ops (start files)).2.tableOf id).map Prod.fst, hconsistent.names id,
    fun name => Keyed.mem_keys_iff_has, ?_⟩, ?_⟩
  · rw [List.length_map]
    simpa [Tally.defined] using hnames.symm
  · simpa using hmisses

/-- A selective loader routes names that begin with `r.` to a host without classes. A class is
looked for there, and another one is defined directly. -/
def routing : List Operation :=
  [.change (.addHost []),
    .change (.addSelective {}),
    .change (.addInterceptor ⟨2⟩ (.route ⟨["r."], ⟨1⟩⟩)),
    .request (.load ⟨2⟩ "r.X"),
    .request (.define ⟨2⟩ definitionOfA)]

/-- One class is defined, and one request was in vain. -/
theorem run_statistics_routing :
    ∃ loader, (run routing (start .empty)).2.loader? ⟨2⟩ = some (.selective loader) ∧
      (∃ names : List String, names.Nodup ∧
        (∀ name, name ∈ names ↔ (run routing (start .empty)).2.isDefined ⟨2⟩ name = true) ∧
        loader.stats.defined + 1 = names.length) ∧
      loader.stats.notFound + 1 = 1 := by
  have hselective : ((run routing (start .empty)).2.loader? ⟨2⟩).any (·.directions.isSome) = true :=
    by decide +kernel
  have hdefines : (run routing (start .empty)).1.countP (·.defines ⟨2⟩) = 1 := by decide +kernel
  have hclaimed : claimedMisses (madeTo ⟨2⟩ (journal routing (start .empty))) = 1 := by
    decide +kernel
  have hmisses : misses (madeTo ⟨2⟩ (journal routing (start .empty))) = 1 := by decide +kernel
  have horder : inOrder routing (start .empty) = true := by decide +kernel
  obtain ⟨l, here, hl⟩ := (Option.any_eq_true _ _).mp hselective
  cases l with
  | selective loader =>
    have hstatistics := run_statistics .empty horder here
    simp only [hdefines, hclaimed, hmisses] at hstatistics
    exact ⟨loader, here, hstatistics⟩
  | host _ => cases hl
  | resources _ => cases hl

/-- The class counts for nothing, and the request is not counted as not found. -/
theorem tallyOf_routing :
    (run routing (start .empty)).2.isDefined ⟨2⟩ "A" = true ∧
      ((run routing (start .empty)).2.tallyOf ⟨2⟩).defined = 0 ∧
      ((run routing (start .empty)).1.map Reply.answer).head? =
        some (.error (.classNotFound "r.X")) ∧
      ((run routing (start .empty)).2.tallyOf ⟨2⟩).notFound = 0 := by
  refine ⟨?_, ?_, ?_, ?_⟩ <;> decide +kernel

end Session

end Understudy
