import Understudy.Proofs.Session.Resolution

/-!
Sessions in order. A loader is given somebody to ask only as long as nobody asks it itself: once it
serves others it belongs to them, and is not redirected any more. Then no loader that is asked for a
class comes to be asked again for it by those it asks. Main statements: `orderly_run` and
`Orderly.notRecalled`.
-/

namespace Understudy

/-- The loader that an interceptor asks. -/
def Interceptor.target? : Interceptor → Option LoaderId
  | route r => some r.target
  | refuse _ _ => none

/-- The loaders that a loader may ask, whatever the name. -/
def Loader.targets : Loader → List LoaderId
  | selective loader => loader.deferred :: loader.interceptors.filterMap Interceptor.target?
  | _ => []

theorem Loader.targets_congr {l l' : Loader} (h : l.directions = l'.directions) :
    l.targets = l'.targets := by
  cases l <;> cases l' <;> simp_all [directions, targets]

/-- The loader that a change gives somebody to ask, and whom. -/
def Change.redirects? : Change → Option (LoaderId × LoaderId)
  | setDeferred id target => some (id, target)
  | addInterceptor id interceptor => interceptor.target?.map (id, ·)
  | _ => none

namespace Session

/-- The loaders that a loader of the session may ask. -/
def targetsOf (s : Session) (id : LoaderId) : List LoaderId :=
  ((s.loader? id).map (·.targets)).getD []

/-- The second loader may be asked by the first one. -/
def MayAsk (s : Session) (id below : LoaderId) : Prop := below ∈ s.targetsOf id

/-- A loader may be given another one to ask: that one is there, and nobody asks the loader. -/
def mayRedirect (s : Session) (id target : LoaderId) : Bool :=
  target != id && decide (target.value < s.loaders.length) &&
    s.loaders.all fun l => !l.targets.contains id

/-- All along a run, loaders are only redirected where they may be. -/
def inOrder : List Operation → Session → Bool
  | [], _ => true
  | .request request :: rest, s => inOrder rest (request.perform s).2
  | .change change :: rest, s =>
    change.redirects?.all (fun (id, target) => s.mayRedirect id target) &&
      inOrder rest (change.perform s)

/-- Whoever may be asked is there, and nobody may come to ask itself. -/
structure Orderly (s : Session) : Prop where
  nonempty : 0 < s.loaders.length
  known : ∀ id below, MayAsk s id below → below.value < s.loaders.length
  acyclic : ∀ id, ¬ Relation.TransGen (MayAsk s) id id

/-- A loader that is not asked again, by those it asks, while it looks for a class. -/
def NotRecalled (s : Session) (id : LoaderId) : Prop :=
  ∀ name, ¬ Relation.TransGen (AsksFor s name) id id

variable {s t : Session} {id below target : LoaderId} {name : String}

/-! ### Who may be asked -/

theorem exists_of_mayAsk (h : MayAsk s id below) :
    ∃ l, s.loader? id = some l ∧ below ∈ l.targets := by
  rw [MayAsk, targetsOf] at h
  cases here : s.loader? id with
  | none =>
    rw [here] at h
    cases h
  | some l =>
    rw [here] at h
    exact ⟨l, rfl, h⟩

theorem AsksFor.mayAsk (h : AsksFor s name id below) : MayAsk s id below := by
  cases h with
  | routed here first =>
    rw [MayAsk, targetsOf, here]
    exact List.mem_cons_of_mem _
      (List.mem_filterMap.mpr ⟨_, List.mem_of_find?_eq_some first, rfl⟩)
  | deferred here _ _ =>
    rw [MayAsk, targetsOf, here]
    exact List.mem_cons_self

/-- In an orderly session nobody is asked again. -/
theorem Orderly.notRecalled (h : Orderly s) (id : LoaderId) : NotRecalled s id :=
  fun _ hcycle => h.acyclic id (Relation.TransGen.mono (fun _ _ => AsksFor.mayAsk) _ _ hcycle)

theorem NotRecalled.congr (h : NotRecalled s id) (hdirections : SameDirections s t) :
    NotRecalled t id := by
  intro name hcycle
  have hback : ∀ a b, AsksFor t name a b → AsksFor s name a b :=
    fun _ _ hasks => hasks.congr hdirections.symm
  exact h name (Relation.TransGen.mono hback _ _ hcycle)

theorem targetsOf_congr
    (h : (t.loader? id).map Loader.targets = (s.loader? id).map Loader.targets) :
    t.targetsOf id = s.targetsOf id := by
  rw [targetsOf, h, targetsOf]

theorem SameDirections.targetsOf (h : SameDirections s t) (id : LoaderId) :
    t.targetsOf id = s.targetsOf id := by
  refine targetsOf_congr ?_
  have hsame := h id
  cases here : s.loader? id with
  | none =>
    rw [here, Option.map_none, Option.map_eq_none_iff] at hsame
    rw [hsame]
  | some l =>
    rw [here] at hsame
    obtain ⟨l', there, heq⟩ := Option.map_eq_some_iff.mp hsame
    rw [there, Option.map_some, Option.map_some, Loader.targets_congr heq]

theorem SameDirections.length_le (h : SameDirections s t) :
    s.loaders.length ≤ t.loaders.length := by
  have hsame := h ⟨t.loaders.length⟩
  have hnone : t.loader? ⟨t.loaders.length⟩ = none := List.getElem?_eq_none (Nat.le_refl _)
  rw [hnone, Option.map_none, eq_comm, Option.map_eq_none_iff] at hsame
  exact List.getElem?_eq_none_iff.mp hsame

/-! ### One change -/

theorem Orderly.congr (h : Orderly s) (hlength : s.loaders.length ≤ t.loaders.length)
    (htargets : ∀ id, t.targetsOf id = s.targetsOf id) : Orderly t := by
  have hmayAsk : MayAsk t = MayAsk s := funext fun id => funext fun below => by
    rw [MayAsk, htargets, MayAsk]
  refine ⟨Nat.lt_of_lt_of_le h.nonempty hlength, fun id below hask => ?_, ?_⟩
  · rw [hmayAsk] at hask
    exact Nat.lt_of_lt_of_le (h.known id below hask) hlength
  · rw [hmayAsk]
    exact h.acyclic

/-- What starts at another loader than the one that has been redirected, which nobody asks, goes by
the loaders as they were. -/
theorem transGen_of_redirected {source : LoaderId}
    (hsame : ∀ a b, MayAsk t a b → a ≠ source → MayAsk s a b) (hfree : ∀ a, ¬ MayAsk t a source)
    {a b : LoaderId} (h : Relation.TransGen (MayAsk t) a b) (ha : a ≠ source) :
    Relation.TransGen (MayAsk s) a b := by
  induction h with
  | single hask => exact .single (hsame _ _ hask ha)
  | @tail between _ hbefore hask ih =>
    have hbetween : between ≠ source := by
      rintro rfl
      obtain ⟨last, -, hlast⟩ := Relation.TransGen.tail'_iff.mp hbefore
      exact hfree last hlast
    exact .tail ih (hsame _ _ hask hbetween)

/-- One loader that nobody asks may ask anybody else who is there. -/
theorem Orderly.redirect (h : Orderly s) (source : LoaderId)
    (hlength : s.loaders.length ≤ t.loaders.length)
    (hsame : ∀ a, a ≠ source → t.targetsOf a = s.targetsOf a) (hfree : ∀ a, ¬ MayAsk t a source)
    (hknown : ∀ b, MayAsk t source b → b.value < t.loaders.length) : Orderly t := by
  have hback : ∀ a b, MayAsk t a b → a ≠ source → MayAsk s a b := by
    intro a b hask ha
    rwa [MayAsk, hsame a ha] at hask
  refine ⟨Nat.lt_of_lt_of_le h.nonempty hlength, fun a b hask => ?_, fun a hcycle => ?_⟩
  · by_cases ha : a = source
    · subst ha
      exact hknown b hask
    · exact Nat.lt_of_lt_of_le (h.known a b (hback a b hask ha)) hlength
  · have ha : a ≠ source := by
      rintro rfl
      obtain ⟨last, -, hlast⟩ := Relation.TransGen.tail'_iff.mp hcycle
      exact hfree last hlast
    exact h.acyclic a (transGen_of_redirected hback hfree hcycle ha)

theorem not_mayAsk_of_mayRedirect (h : s.mayRedirect id target = true) (a : LoaderId) :
    ¬ MayAsk s a id := by
  intro hask
  obtain ⟨l, here, hmem⟩ := exists_of_mayAsk hask
  simp only [mayRedirect, Bool.and_eq_true, List.all_eq_true, Bool.not_eq_true',
    List.contains_eq_mem, decide_eq_false_iff_not] at h
  exact h.2 l (List.mem_of_getElem? here) hmem

theorem Orderly.updateLoader (h : Orderly s) (hmay : s.mayRedirect id target = true)
    {f : Loader → Loader} (hf : ∀ l, ∀ b ∈ (f l).targets, b = target ∨ b ∈ l.targets) :
    Orderly (s.updateLoader id f) := by
  have hlength : (s.updateLoader id f).loaders.length = s.loaders.length :=
    List.length_modify _ _ _
  have hadded : ∀ b, MayAsk (s.updateLoader id f) id b → b = target ∨ MayAsk s id b := by
    intro b hask
    rw [MayAsk, targetsOf, loader?_updateLoader_self] at hask
    rw [MayAsk, targetsOf]
    cases here : s.loader? id with
    | none =>
      rw [here] at hask
      cases hask
    | some l =>
      rw [here] at hask
      exact hf l b hask
  have hothers : ∀ a, a ≠ id → (s.updateLoader id f).targetsOf a = s.targetsOf a :=
    fun a ha => by rw [targetsOf, loader?_updateLoader_of_ne s f ha, targetsOf]
  have hfree := not_mayAsk_of_mayRedirect hmay
  simp only [mayRedirect, Bool.and_eq_true, bne_iff_ne, decide_eq_true_eq] at hmay
  obtain ⟨⟨hne, hknown⟩, -⟩ := hmay
  refine h.redirect id (Nat.le_of_eq hlength.symm) hothers (fun a hask => ?_) fun b hask => ?_
  · by_cases ha : a = id
    · subst ha
      rcases hadded a hask with heq | hask
      · exact hne heq.symm
      · exact hfree a hask
    · rw [MayAsk, hothers a ha] at hask
      exact hfree a hask
  · rw [hlength]
    rcases hadded b hask with rfl | hask
    · exact hknown
    · exact h.known id b hask

theorem Orderly.addLoader (h : Orderly s) {l : Loader}
    (hknown : ∀ b ∈ l.targets, b.value < s.loaders.length) : Orderly (s.addLoader l).2 := by
  have hlength : (s.addLoader l).2.loaders.length = s.loaders.length + 1 :=
    List.length_append
  have hnew : (s.addLoader l).2.targetsOf (s.addLoader l).1 = l.targets := by
    rw [targetsOf, loader?_addLoader_self]
    rfl
  have hothers : ∀ a, a ≠ (s.addLoader l).1 → (s.addLoader l).2.targetsOf a = s.targetsOf a :=
    fun a ha => by rw [targetsOf, loader?_addLoader_of_ne s l ha, targetsOf]
  refine h.redirect (s.addLoader l).1 (by omega) hothers (fun a hask => ?_) fun b hask => ?_
  · -- the new loader is behind all that may be asked
    have hlast : (s.addLoader l).1.value < s.loaders.length := by
      by_cases ha : a = (s.addLoader l).1
      · rw [MayAsk, ha, hnew] at hask
        exact hknown _ hask
      · rw [MayAsk, hothers a ha] at hask
        exact h.known a _ hask
    exact Nat.lt_irrefl _ hlast
  · rw [MayAsk, hnew] at hask
    have hlt := hknown b hask
    omega

theorem Orderly.addSelective (h : Orderly s) (config : Setup) :
    Orderly (s.addSelective config).2 := by
  have hspec := addSelective_spec config s
  rcases hadded : s.addSelective config with ⟨e | id, t⟩
  · rw [hadded] at hspec
    obtain ⟨more, rfl⟩ := hspec
    exact h.congr (Nat.le_refl _) fun _ => rfl
  · rw [hadded] at hspec
    obtain ⟨u, entries, ⟨more, rfl⟩, hnew⟩ := hspec
    obtain ⟨-, rfl⟩ := Prod.mk.inj hnew
    have hu : Orderly { s with holdings := s.holdings ++ more } :=
      h.congr (Nat.le_refl _) fun _ => rfl
    refine hu.addLoader fun b hb => ?_
    rw [List.mem_singleton.mp hb]
    exact h.nonempty

/-- A loader stays with those that it may ask. -/
theorem Orderly.updateLoader_of_targets (h : Orderly s) (id : LoaderId) {f : Loader → Loader}
    (hf : ∀ l, (f l).targets = l.targets) : Orderly (s.updateLoader id f) :=
  h.congr (Nat.le_of_eq (List.length_modify _ _ _).symm) fun other =>
    targetsOf_congr (map_updateLoader Loader.targets s id other hf)

theorem Orderly.perform_change (h : Orderly s) {change : Change}
    (hmay : ∀ id target, change.redirects? = some (id, target) → s.mayRedirect id target = true) :
    Orderly (change.perform s) := by
  cases change with
  | putFiles _ => exact h.congr (Nat.le_refl _) fun _ => rfl
  | addEntry _ => exact h.congr (Nat.le_refl _) fun _ => rfl
  | insertClass _ _ _ => exact h.congr (Nat.le_refl _) fun _ => rfl
  | insertResource _ _ _ => exact h.congr (Nat.le_refl _) fun _ => rfl
  | addHost _ => exact h.addLoader (by simp [Loader.targets])
  | addResourceLoader _ _ => exact h.addLoader (by simp [Loader.targets])
  | addSelective config => exact h.addSelective config
  | appendTo id _ => exact h.updateLoader_of_targets id fun l => by cases l <;> rfl
  | setChain id _ => exact h.updateLoader_of_targets id fun l => by cases l <;> rfl
  | addIgnores id _ => exact h.updateLoader_of_targets id fun l => by cases l <;> rfl
  | setDeferred id target =>
    refine h.updateLoader (hmay id target rfl) fun l b hb => ?_
    cases l with
    | selective loader =>
      rcases List.mem_cons.mp hb with rfl | hrouted
      · exact .inl rfl
      · exact .inr (List.mem_cons_of_mem _ hrouted)
    | host _ => exact .inr hb
    | resources _ => exact .inr hb
  | addInterceptor id interceptor =>
    cases interceptor with
    | refuse _ _ =>
      refine h.updateLoader_of_targets id fun l => ?_
      cases l <;> simp [Loader.mapSelective, Loader.targets, Interceptor.target?]
    | route route =>
      refine h.updateLoader (hmay id route.target rfl) fun l b hb => ?_
      cases l with
      | selective loader =>
        rw [Loader.mapSelective, Loader.targets, List.filterMap_append, List.mem_cons,
          List.mem_append] at hb
        rcases hb with hdeferred | hbefore | hnew
        · exact .inr (List.mem_cons.mpr (.inl hdeferred))
        · exact .inr (List.mem_cons_of_mem _ hbefore)
        · exact .inl (List.mem_singleton.mp hnew)
      | host _ => exact .inr hb
      | resources _ => exact .inr hb

theorem orderly_start (files : FileTree) : Orderly (start files) := by
  have hnobody : ∀ a b, ¬ MayAsk (start files) a b := by
    intro a b hask
    obtain ⟨l, here, hmem⟩ := exists_of_mayAsk hask
    have hlast : l = .host { entries := [] } := List.mem_singleton.mp (List.mem_of_getElem? here)
    rw [hlast] at hmem
    cases hmem
  refine ⟨Nat.one_pos, fun a b hask => absurd hask (hnobody a b), fun a hcycle => ?_⟩
  obtain ⟨last, -, hlast⟩ := Relation.TransGen.tail'_iff.mp hcycle
  exact hnobody last a hlast

/-- By induction on the run. -/
theorem orderly_run (h : Orderly s) (ops : List Operation) (hops : inOrder ops s = true) :
    Orderly (run ops s).2 := by
  induction ops generalizing s with
  | nil => exact h
  | cons op rest ih =>
    cases op with
    | request request =>
      have hsame := sameDirections_perform request s
      exact ih (h.congr hsame.length_le hsame.targetsOf) hops
    | change change =>
      obtain ⟨hmay, hrest⟩ := Bool.and_eq_true_iff.mp hops
      refine ih (h.perform_change fun id target hredirects => ?_) hrest
      rw [hredirects] at hmay
      exact hmay

end Session

end Understudy
