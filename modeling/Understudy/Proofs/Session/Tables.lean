import Understudy.Session.Run

/-!
The tables of a session after each single change of it: what leaves them alone, and what entering a
class does to them.
-/

namespace Understudy

/-- Whether a loader has a table to enter classes into. -/
def Loader.keepsClasses : Loader → Bool
  | resources _ => false
  | _ => true

theorem Loader.table_mapTable {l : Loader} (h : l.keepsClasses = true)
    (f : ClassTable → ClassTable) : (l.mapTable f).table = f l.table := by
  cases l with
  | host _ => rfl
  | selective _ => rfl
  | resources _ => simp [keepsClasses] at h

theorem Loader.table_mapSelective (l : Loader) {f : SelectiveLoader → SelectiveLoader}
    (h : ∀ m, (f m).table = m.table) : (l.mapSelective f).table = l.table := by
  cases l with
  | selective m => exact h m
  | host _ => rfl
  | resources _ => rfl

@[simp]
theorem Loader.table_mapEntries (l : Loader) (f : List EntryId → List EntryId) :
    (l.mapEntries f).table = l.table := by
  cases l <;> rfl

namespace Session

/-- Whether there is a loader of this identity that has a table. -/
def keepsClasses (s : Session) (id : LoaderId) : Bool := (s.loader? id).any (·.keepsClasses)

theorem keepsClasses_of_host {s : Session} {id : LoaderId} {host : HostLoader}
    (h : s.loader? id = some (.host host)) : s.keepsClasses id = true := by
  rw [keepsClasses, h]; rfl

theorem keepsClasses_of_selective {s : Session} {id : LoaderId} {loader : SelectiveLoader}
    (h : s.loader? id = some (.selective loader)) : s.keepsClasses id = true := by
  rw [keepsClasses, h]; rfl

theorem tableOf_of_host {s : Session} {id : LoaderId} {host : HostLoader}
    (h : s.loader? id = some (.host host)) : s.tableOf id = host.table := by
  rw [tableOf, h]; rfl

theorem tableOf_of_selective {s : Session} {id : LoaderId} {loader : SelectiveLoader}
    (h : s.loader? id = some (.selective loader)) : s.tableOf id = loader.table := by
  rw [tableOf, h]; rfl

/-! ### Loaders and tables after the single changes of a session -/

theorem loader?_updateLoader_self (s : Session) (id : LoaderId) (f : Loader → Loader) :
    (s.updateLoader id f).loader? id = (s.loader? id).map f := by
  simp [loader?, updateLoader]

theorem loader?_updateLoader_of_ne (s : Session) {id other : LoaderId} (f : Loader → Loader)
    (h : other ≠ id) : (s.updateLoader id f).loader? other = s.loader? other := by
  have hv : id.value ≠ other.value := fun e => h (by cases id; cases other; simp_all)
  simp [loader?, updateLoader, hv]

/-- Changing a loader leaves alone, of all loaders, what the change does not concern. -/
theorem map_updateLoader {α : Type} (view : Loader → α) (s : Session) (id other : LoaderId)
    {f : Loader → Loader} (h : ∀ l, view (f l) = view l) :
    ((s.updateLoader id f).loader? other).map view = (s.loader? other).map view := by
  by_cases hne : other = id
  · subst hne
    rw [loader?_updateLoader_self, Option.map_map]
    congr 1
    exact funext h
  · rw [loader?_updateLoader_of_ne s f hne]

/-- Changing a loader otherwise than in its table leaves every table alone. -/
theorem tableOf_updateLoader (s : Session) (id other : LoaderId) {f : Loader → Loader}
    (h : ∀ l, (f l).table = l.table) :
    (s.updateLoader id f).tableOf other = s.tableOf other := by
  rw [tableOf, map_updateLoader Loader.table s id other h, tableOf]

theorem tableOf_mapSelective (s : Session) (id other : LoaderId)
    {f : SelectiveLoader → SelectiveLoader} (h : ∀ m, (f m).table = m.table) :
    (s.updateLoader id (·.mapSelective f)).tableOf other = s.tableOf other :=
  tableOf_updateLoader s id other fun l => l.table_mapSelective h

@[simp]
theorem tableOf_count (s : Session) (id other : LoaderId) (event : LoadEvent) :
    (s.count id event).tableOf other = s.tableOf other :=
  tableOf_mapSelective s id other fun _ => rfl

/-- A loader newly added is the last one. -/
theorem loader?_addLoader_self (s : Session) (l : Loader) :
    (s.addLoader l).2.loader? (s.addLoader l).1 = some l := by
  simp [loader?, addLoader]

theorem loader?_addLoader_of_ne (s : Session) (l : Loader) {other : LoaderId}
    (h : other ≠ (s.addLoader l).1) : (s.addLoader l).2.loader? other = s.loader? other := by
  simp only [loader?, addLoader]
  rcases Nat.lt_trichotomy other.value s.loaders.length with hlt | heq | hgt
  · rw [List.getElem?_append_left hlt]
  · exact absurd (congrArg LoaderId.mk heq) h
  · rw [List.getElem?_eq_none (by rw [List.length_append, List.length_singleton]; omega),
      List.getElem?_eq_none (by omega)]

/-- A loader that starts with an empty table adds nothing to what is defined. -/
theorem tableOf_addLoader (s : Session) (other : LoaderId) {l : Loader} (h : l.table = []) :
    (s.addLoader l).2.tableOf other = s.tableOf other := by
  by_cases hother : other = (s.addLoader l).1
  · subst hother
    have hnone : s.loader? (s.addLoader l).1 = none := List.getElem?_eq_none (Nat.le_refl _)
    rw [tableOf, loader?_addLoader_self, tableOf, hnone]
    exact h
  · rw [tableOf, loader?_addLoader_of_ne s l hother, tableOf]

theorem tableOf_enter_self {s : Session} {c : DefinedClass} (h : s.keepsClasses c.loader = true) :
    (s.enter c).tableOf c.loader = (s.tableOf c.loader).insert c.file.name c := by
  obtain ⟨l, hl, hk⟩ := Option.any_eq_true _ _ |>.mp h
  have hself := loader?_updateLoader_self s c.loader (·.mapTable (·.insert c.file.name c))
  rw [hl] at hself
  simp only [tableOf, hl, Option.map_some, Option.getD_some]
  change ((Option.map _ ((s.updateLoader c.loader _).loader? c.loader)).getD []) = _
  rw [hself]
  exact Loader.table_mapTable hk _

theorem tableOf_enter_of_ne (s : Session) {c : DefinedClass} {id : LoaderId} (h : id ≠ c.loader) :
    (s.enter c).tableOf id = s.tableOf id := by
  change ((Option.map _ ((s.updateLoader c.loader _).loader? id)).getD []) = _
  rw [loader?_updateLoader_of_ne s _ h, tableOf]

/-- A class newly entered is found at once. -/
theorem find?_enter_self {s : Session} {c : DefinedClass} (h : s.keepsClasses c.loader = true) :
    ((s.enter c).tableOf c.loader).find? c.file.name = some c := by
  rw [tableOf_enter_self h, Keyed.find?_insert_self]

/-- Entering a class touches no other name and no other loader. -/
theorem find?_enter_of_ne {s : Session} {c : DefinedClass} (h : s.keepsClasses c.loader = true)
    {id : LoaderId} {name : String} (hother : id ≠ c.loader ∨ c.file.name ≠ name) :
    ((s.enter c).tableOf id).find? name = (s.tableOf id).find? name := by
  by_cases hid : id = c.loader
  · subst hid
    rw [tableOf_enter_self h,
      Keyed.find?_insert_of_ne _ _ (hother.resolve_left fun hne => hne rfl)]
  · rw [tableOf_enter_of_ne s hid]

/-! ### Setting a loader up -/

/-- A session that differs from another one by entries that were added to it. -/
def AddsEntries (s t : Session) : Prop :=
  ∃ more, t = { s with holdings := s.holdings ++ more }

theorem AddsEntries.refl (s : Session) : AddsEntries s s := ⟨[], by rw [List.append_nil]⟩

theorem AddsEntries.trans {s t u : Session} (h : AddsEntries s t) (k : AddsEntries t u) :
    AddsEntries s u := by
  obtain ⟨first, rfl⟩ := h
  obtain ⟨second, rfl⟩ := k
  exact ⟨first ++ second, by simp only [List.append_assoc]⟩

theorem addsEntries_addEntry (s : Session) (holding : Holding) :
    AddsEntries s (s.addEntry holding).2 := ⟨[holding], rfl⟩

theorem addsEntries_addDirectories (roots : List String) (s : Session) :
    AddsEntries s (s.addDirectories roots).2 := by
  rw [addDirectories]
  refine List.foldlRecOn (motive := fun acc : List EntryId × Session => AddsEntries s acc.2)
    roots _ (.refl s) ?_
  intro acc h root _
  exact h.trans (addsEntries_addEntry acc.2 _)

theorem addsEntries_editOnce (e : ClassPathEdit) (s : Session) :
    AddsEntries s (editOnce e s).2 := by
  cases e with
  | append _ => exact .refl s
  | synthesize name =>
    unfold editOnce synthesize
    exact addsEntries_addEntry s (.single name (Stub.encode { name := name }))
  | appendDirectory _ => exact addsEntries_addEntry s _
  | fail _ => exact .refl s

theorem addsEntries_edit (edits : List ClassPathEdit) (entries : List EntryId) (s : Session) :
    AddsEntries s (edit edits entries s).2 := by
  induction edits generalizing entries s with
  | nil => exact .refl s
  | cons e rest ih =>
    have hone := addsEntries_editOnce e s
    rw [edit]
    split
    · next _ t h =>
      rw [h] at hone
      exact hone
    · next entry t h =>
      rw [h] at hone
      exact hone.trans (ih _ t)

/-- A selective loader that comes into being is the last one, with an empty table and nothing
counted; all that was added besides are entries. If it does not come into being, only those are. -/
theorem addSelective_spec (config : Setup) (s : Session) :
    match s.addSelective config with
    | (.error _, t) => AddsEntries s t
    | (.ok id, t) => ∃ u entries, AddsEntries s u ∧ (id, t) = u.addLoader (.selective {
        policy := config.policy
        suppressStatic := config.suppressStatic
        entries := entries
        deferred := ambient
        domain := config.domain }) := by
  have hdirectories := addsEntries_addDirectories config.directories s
  simp only [addSelective]
  rcases hmade : s.addDirectories config.directories with ⟨entries, u⟩
  rw [hmade] at hdirectories
  have hedits := addsEntries_edit (config.adjuster.getD []) entries u
  rcases hedited : edit (config.adjuster.getD []) entries u with ⟨e | edited, v⟩
  · rw [hedited] at hedits
    exact hdirectories.trans hedits
  · rw [hedited] at hedits
    exact ⟨v, edited, hdirectories.trans hedits, rfl⟩

end Session

end Understudy
