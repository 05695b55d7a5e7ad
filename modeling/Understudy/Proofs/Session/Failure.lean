import Mathlib.Data.Option.Basic
import Understudy.Proofs.Session.Search

/-!
Requests that fail. A failure leaves everything as it was: all tables, class paths, policies,
chains, interceptors and loaders to defer to, what the entries hold, and the identities that are
given to classes. Only two counts can change, that of names not found and that of names claimed, of
the selective loaders that the search came by; a class that could not be defined directly leaves
even these. Main statement: `perform_of_error`.
-/

namespace Understudy

/-- What a failed search may make of a loader: it has counted more names that were not found or that
were claimed, and is otherwise the same. -/
inductive Loader.CountsFailures : Loader → Loader → Prop
  | same (l : Loader) : CountsFailures l l
  | more (m : SelectiveLoader) (missed claimed : Nat) :
    CountsFailures (.selective m) (.selective { m with stats := { m.stats with
      notFound := m.stats.notFound + missed
      intercepted := m.stats.intercepted + claimed } })

theorem Loader.CountsFailures.trans {a b c : Loader} (h : CountsFailures a b)
    (k : CountsFailures b c) : CountsFailures a c := by
  cases h with
  | same => exact k
  | more m missed claimed =>
    cases k with
    | same => exact .more m missed claimed
    | more _ missed' claimed' =>
      simpa only [Nat.add_assoc] using
        CountsFailures.more m (missed + missed') (claimed + claimed')

theorem Loader.countsFailures_count (l : Loader) {event : LoadEvent}
    (h : event = .notFound ∨ event = .intercepted) :
    CountsFailures l (l.mapSelective fun m => { m with stats := m.stats.count event }) := by
  cases l with
  | selective m =>
    rcases h with rfl | rfl
    · exact .more m 1 0
    · exact .more m 0 1
  | host _ => exact .same _
  | resources _ => exact .same _

namespace Session

/-- Nothing has changed from one session to another but counts of failures, and these only in the
loaders of `among`. -/
structure Intact (among : LoaderId → Prop) (s t : Session) : Prop where
  files : t.files = s.files
  holdings : t.holdings = s.holdings
  nextHandle : t.nextHandle = s.nextHandle
  loaders : ∀ id, Option.Rel Loader.CountsFailures (s.loader? id) (t.loader? id)
  others : ∀ id, ¬ among id → t.loader? id = s.loader? id

variable {among : LoaderId → Prop} {name : String} {s t u : Session}

theorem Intact.refl (among : LoaderId → Prop) (s : Session) : Intact among s s where
  files := rfl
  holdings := rfl
  nextHandle := rfl
  loaders id := by
    cases s.loader? id with
    | none => exact .none
    | some l => exact .some (.same l)
  others _ _ := rfl

theorem Intact.trans (h : Intact among s t) (k : Intact among t u) : Intact among s u where
  files := k.files.trans h.files
  holdings := k.holdings.trans h.holdings
  nextHandle := k.nextHandle.trans h.nextHandle
  loaders id := by
    have hfirst := h.loaders id
    have hsecond := k.loaders id
    cases hs : s.loader? id <;> cases ht : t.loader? id <;> cases hu : u.loader? id <;>
      rw [hs, ht] at hfirst <;> rw [ht, hu] at hsecond <;> cases hfirst <;> cases hsecond
    · exact .none
    · next hfirst hsecond => exact .some (hfirst.trans hsecond)
  others id hid := (k.others id hid).trans (h.others id hid)

theorem intact_count {id : LoaderId} {event : LoadEvent} (who : among id)
    (h : event = .notFound ∨ event = .intercepted) : Intact among s (s.count id event) where
  files := rfl
  holdings := rfl
  nextHandle := rfl
  loaders other := by
    by_cases hne : other = id
    · subst hne
      rw [count, loader?_updateLoader_self]
      cases s.loader? other with
      | none => exact .none
      | some l => exact .some (l.countsFailures_count h)
    · rw [loader?_count_of_ne s event hne]
      exact (Intact.refl among s).loaders other
  others other hother := loader?_count_of_ne s event fun heq => hother (heq ▸ who)

/-- A step of a search that fails enters no class. -/
theorem SearchStep.intact (h : SearchStep among name false s t) : Intact among s t := by
  cases h with
  | counted who kind => exact intact_count who (kind.resolve_left Bool.false_ne_true)
  | @passed id loader _ _ _ file =>
    have hself := Intact.refl among s
    exact ⟨rfl, rfl, rfl, hself.loaders, hself.others⟩
  | entered _ succeeded _ _ _ _ _ => cases succeeded

theorem Searches.intact (h : Searches among name false s t) : Intact among s t := by
  induction h with
  | refl => exact .refl among s
  | tail _ step ih => exact ih.trans step.intact

/-! ### Requests -/

/-- A request that fails leaves everything as it was but two counts, and a direct definition that
fails leaves these too. -/
theorem perform_of_error {request : Request} {e : Error}
    (h : (request.perform s).1 = .error e) :
    Intact (Reaches s request.name request.loader) s (request.perform s).2 ∧
      ∀ id d, request = .define id d → (request.perform s).2 = s := by
  have hfailed : (request.perform s).1.isOk = false := by rw [h]; rfl
  cases request with
  | load id name =>
    have hsearch := searches_load id name s
    refine ⟨?_, fun _ _ hrequest => nomatch hrequest⟩
    rw [Request.perform] at hfailed ⊢
    rw [hfailed] at hsearch
    exact hsearch.intact
  | find id name =>
    have hsearch := searches_find id name s
    refine ⟨?_, fun _ _ hrequest => nomatch hrequest⟩
    rw [Request.perform] at hfailed ⊢
    rw [hfailed] at hsearch
    exact hsearch.intact
  | define id d =>
    have hsame : Request.perform (.define id d) s = (.error e, s) := define_of_error h
    rw [hsame]
    exact ⟨.refl _ s, fun _ _ _ => rfl⟩

/-- A selective loader that modifies the class `A` and ignores the rest, over one that defers all
names to a host without classes. The upper one routes names that begin with `r` to the lower one. -/
def missing : Session :=
  (run [.change (.addSelective {}),
    .change (.addSelective { prepare := Patterns.ofStrings ["A"] }),
    .change (.setDeferred ⟨2⟩ ⟨1⟩),
    .change (.addInterceptor ⟨2⟩ (.route ⟨["r"], ⟨1⟩⟩))] (start .empty)).2

/-- No class can be had from it. A name that is routed is counted by both loaders, and the session
is otherwise as it was; so it is when a class is to be defined from no bytes. -/
theorem perform_of_error_missing :
    Intact (Reaches missing "r.B" ⟨2⟩) missing (load ⟨2⟩ "r.B" missing).2 ∧
      ((load ⟨2⟩ "r.B" missing).2.loader? ⟨2⟩).map (·.stats) = some { intercepted := 1 } ∧
      (define ⟨2⟩ (.whole "A" [] {}) missing).2 = missing := by
  have hload : ((Request.load ⟨2⟩ "r.B").perform missing).1 = .error (.classNotFound "r.B") := by
    decide +kernel
  have hdefine : ((Request.define ⟨2⟩ (.whole "A" [] {})).perform missing).1 =
      .error .outOfBounds := by decide +kernel
  exact ⟨(perform_of_error hload).1, by decide +kernel,
    (perform_of_error hdefine).2 ⟨2⟩ _ rfl⟩

end Session

end Understudy
