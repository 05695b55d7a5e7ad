import Understudy.Proofs.Session.Asking

/-!
What a change makes of the loaders. A loader that comes into being has defined and counted nothing.
One that is there stays of its kind, with the classes that it has defined and with its counts, and
it gets an interceptor only from a change that adds it there. Main statement: `ofChange_perform`.
-/

namespace Understudy

/-- The interceptors that stand before a loader's own rules. -/
def Loader.interceptors : Loader → List Interceptor
  | selective loader => loader.interceptors
  | _ => []

/-- A loader as it comes into being. -/
structure Loader.IsNew (l : Loader) : Prop where
  table : l.table = []
  stats : l.stats = {}
  interceptors : l.interceptors = []

/-- What a change to the loader of an identity may make of it. -/
structure Loader.AdjustedBy (change : Change) (id : LoaderId) (l l' : Loader) : Prop where
  table : l'.table = l.table
  stats : l'.stats = l.stats
  kind : l'.directions.isSome = l.directions.isSome
  interceptors : ∀ i ∈ l'.interceptors, i ∈ l.interceptors ∨ change = .addInterceptor id i

theorem Loader.AdjustedBy.refl (change : Change) (id : LoaderId) (l : Loader) :
    AdjustedBy change id l l :=
  ⟨rfl, rfl, rfl, fun _ hmem => .inl hmem⟩

theorem Loader.adjustedBy_mapEntries (change : Change) (id : LoaderId) (l : Loader)
    (f : List EntryId → List EntryId) : AdjustedBy change id l (l.mapEntries f) := by
  cases l with
  | host _ => exact ⟨rfl, rfl, rfl, fun _ hmem => .inl hmem⟩
  | selective _ => exact ⟨rfl, rfl, rfl, fun _ hmem => .inl hmem⟩
  | resources _ => exact .refl _ _ _

theorem Loader.adjustedBy_mapSelective {change : Change} {id : LoaderId} (l : Loader)
    {f : SelectiveLoader → SelectiveLoader} (htable : ∀ m, (f m).table = m.table)
    (hstats : ∀ m, (f m).stats = m.stats)
    (hinterceptors : ∀ m, ∀ i ∈ (f m).interceptors,
      i ∈ m.interceptors ∨ change = .addInterceptor id i) :
    AdjustedBy change id l (l.mapSelective f) := by
  cases l with
  | selective m => exact ⟨htable m, hstats m, rfl, hinterceptors m⟩
  | host _ => exact .refl _ _ _
  | resources _ => exact .refl _ _ _

namespace Session

/-- What a change may make of what there is under an identity. -/
inductive OfChange (change : Change) (id : LoaderId) : Option Loader → Option Loader → Prop
  | absent : OfChange change id none none
  | added {l : Loader} (new : l.IsNew) : OfChange change id none (some l)
  | adjusted {l l' : Loader} (adjusted : l.AdjustedBy change id l') :
    OfChange change id (some l) (some l')

variable {s : Session} {change : Change} {id : LoaderId}

theorem ofChange_refl (change : Change) (id : LoaderId) (l : Option Loader) :
    OfChange change id l l := by
  cases l with
  | none => exact .absent
  | some l => exact .adjusted (.refl change id l)

theorem ofChange_addLoader (change : Change) (s : Session) (id : LoaderId) {l : Loader}
    (hnew : l.IsNew) : OfChange change id (s.loader? id) ((s.addLoader l).2.loader? id) := by
  by_cases hid : id = (s.addLoader l).1
  · have hnone : s.loader? id = none := by
      rw [hid]
      exact List.getElem?_eq_none (Nat.le_refl _)
    rw [hnone, hid, loader?_addLoader_self]
    exact .added hnew
  · rw [loader?_addLoader_of_ne s l hid]
    exact ofChange_refl change id _

theorem ofChange_updateLoader (target : LoaderId) {f : Loader → Loader}
    (hf : id = target → ∀ l : Loader, l.AdjustedBy change id (f l)) :
    OfChange change id (s.loader? id) ((s.updateLoader target f).loader? id) := by
  by_cases hid : id = target
  · rw [← hid, loader?_updateLoader_self]
    cases s.loader? id with
    | none => exact .absent
    | some l => exact .adjusted (hf hid l)
  · rw [loader?_updateLoader_of_ne s f hid]
    exact ofChange_refl change id _

theorem ofChange_addSelective (change : Change) (s : Session) (id : LoaderId) (config : Setup) :
    OfChange change id (s.loader? id) ((s.addSelective config).2.loader? id) := by
  have hspec := addSelective_spec config s
  rcases hadded : s.addSelective config with ⟨e | new, t⟩
  · rw [hadded] at hspec
    obtain ⟨more, rfl⟩ := hspec
    exact ofChange_refl change id _
  · rw [hadded] at hspec
    obtain ⟨u, entries, ⟨more, rfl⟩, hnew⟩ := hspec
    obtain ⟨-, rfl⟩ := Prod.mk.inj hnew
    exact ofChange_addLoader change { s with holdings := s.holdings ++ more } id ⟨rfl, rfl, rfl⟩

/-- What any change makes of any loader. -/
theorem ofChange_perform (change : Change) (s : Session) (id : LoaderId) :
    OfChange change id (s.loader? id) ((change.perform s).loader? id) := by
  cases change with
  | putFiles _ => exact ofChange_refl _ id _
  | addEntry _ => exact ofChange_refl _ id _
  | insertClass _ _ _ => exact ofChange_refl _ id _
  | insertResource _ _ _ => exact ofChange_refl _ id _
  | addHost _ => exact ofChange_addLoader _ s id ⟨rfl, rfl, rfl⟩
  | addResourceLoader _ _ => exact ofChange_addLoader _ s id ⟨rfl, rfl, rfl⟩
  | addSelective config => exact ofChange_addSelective _ s id config
  | appendTo target _ =>
    exact ofChange_updateLoader target fun _ l => l.adjustedBy_mapEntries _ id _
  | setChain target _ =>
    exact ofChange_updateLoader target fun _ l =>
      l.adjustedBy_mapSelective (fun _ => rfl) (fun _ => rfl) fun _ _ hmem => .inl hmem
  | setDeferred target _ =>
    exact ofChange_updateLoader target fun _ l =>
      l.adjustedBy_mapSelective (fun _ => rfl) (fun _ => rfl) fun _ _ hmem => .inl hmem
  | addIgnores target _ =>
    exact ofChange_updateLoader target fun _ l =>
      l.adjustedBy_mapSelective (fun _ => rfl) (fun _ => rfl) fun _ _ hmem => .inl hmem
  | addInterceptor target interceptor =>
    refine ofChange_updateLoader target fun hid l =>
      l.adjustedBy_mapSelective (fun _ => rfl) (fun _ => rfl) fun m i hmem => ?_
    rcases List.mem_append.mp hmem with hbefore | hadded
    · exact .inl hbefore
    · rw [List.mem_singleton.mp hadded, hid]
      exact .inr rfl

end Session

end Understudy
