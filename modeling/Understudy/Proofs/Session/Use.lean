import Understudy.Proofs.Session.Consistency
import Understudy.Proofs.Session.Serving
import Understudy.Session.Use

/-!
What is done when a loader is used. Each act is a search for a class, or a change of the loader
alone and of what lies on its own class path. Every class that is answered stays with the loader
that has defined it, so identities tell apart all classes that are answered in a run. Main
statements: `ownChange_or_searches` and `eq_of_mem_use`.
-/

namespace Understudy

/-- The loader that a selective loader defers to, and its interceptors. -/
def Loader.link? : Loader → Option (LoaderId × List Interceptor)
  | selective loader => some (loader.deferred, loader.interceptors)
  | _ => none

theorem Loader.link?_setup (l : Loader) : l.setup.link? = l.link? := by
  cases l <;> rfl

namespace Session

variable {s t u : Session} {id : LoaderId}

/-! ### Entries and links after the single changes of a session -/

theorem entryAt?_addEntry_self (s : Session) (holding : Holding) :
    (s.addEntry holding).2.entryAt? ⟨s.holdings.length⟩ =
      some ⟨⟨s.holdings.length⟩, holding⟩ := by
  simp [entryAt?, addEntry]

theorem entryAt?_addEntry_of_lt (s : Session) (holding : Holding) {entry : EntryId}
    (h : entry.value < s.holdings.length) :
    (s.addEntry holding).2.entryAt? entry = s.entryAt? entry := by
  simp [entryAt?, addEntry, List.getElem?_append_left h]

theorem entryAt?_updateEntry_self (s : Session) (entry : EntryId) (f : Holding → Holding) :
    (s.updateEntry entry f).entryAt? entry =
      (s.entryAt? entry).map fun e => ⟨e.id, f e.holding⟩ := by
  simp [entryAt?, updateEntry, Option.map_map, Function.comp_def]

theorem entryAt?_updateEntry_of_ne (s : Session) {entry other : EntryId} (f : Holding → Holding)
    (h : other ≠ entry) : (s.updateEntry entry f).entryAt? other = s.entryAt? other := by
  have hv : entry.value ≠ other.value := fun e => h (by cases entry; cases other; simp_all)
  simp [entryAt?, updateEntry, hv]

theorem classPathOf_congr {entries : List EntryId}
    (h : ∀ entry ∈ entries, t.entryAt? entry = s.entryAt? entry) :
    t.classPathOf entries = s.classPathOf entries := by
  simp only [classPathOf, List.filterMap_congr h]

theorem entriesOf_updateLoader (s : Session) (id other : LoaderId) {f : Loader → Loader}
    (h : ∀ l, (f l).entries = l.entries) :
    (s.updateLoader id f).entriesOf other = s.entriesOf other := by
  rw [entriesOf, map_updateLoader Loader.entries s id other h, entriesOf]

theorem mem_entriesOf_appendTo {entry added : EntryId} (h : entry ∈ s.entriesOf id) :
    entry ∈ (s.appendTo id added).entriesOf id := by
  rw [appendTo, entriesOf, loader?_updateLoader_self]
  rw [entriesOf] at h
  rcases hl : s.loader? id with _ | l
  · simp [hl] at h
  · cases l <;> simp_all [Loader.mapEntries, Loader.entries]

theorem Searches.link?_eq {among : LoaderId → Prop} {name : String} {success : Bool}
    (h : Searches among name success s t) (id : LoaderId) :
    (t.loader? id).map Loader.link? = (s.loader? id).map Loader.link? := by
  have hsetup := congrArg (Option.map Loader.link?) (h.map_setup_eq id)
  simpa only [Option.map_map, Function.comp_def, Loader.link?_setup] using hsetup

theorem Searches.entriesOf_eq {among : LoaderId → Prop} {name : String} {success : Bool}
    (h : Searches among name success s t) (id : LoaderId) : t.entriesOf id = s.entriesOf id := by
  have hsetup := congrArg (Option.map Loader.entries) (h.map_setup_eq id)
  simp only [Option.map_map, Function.comp_def, Loader.entries_setup] at hsetup
  rw [entriesOf, hsetup, entriesOf]

theorem Searches.entryAt?_eq {among : LoaderId → Prop} {name : String} {success : Bool}
    (h : Searches among name success s t) (entry : EntryId) :
    t.entryAt? entry = s.entryAt? entry := by
  rw [entryAt?, h.holdings, entryAt?]

theorem Above.of_link {h : LoaderId} (habove : Above s h id)
    (hlink : (t.loader? id).map Loader.link? = (s.loader? id).map Loader.link?) :
    Above t h id := by
  obtain ⟨loader, here, honly⟩ := habove
  rcases hthere : t.loader? id with _ | ⟨_ | twin | _⟩ <;>
    simp only [here, hthere, Option.map_some, Option.map_none, Loader.link?, Option.some.injEq,
      Prod.mk.injEq, reduceCtorEq] at hlink
  exact ⟨twin, hthere, hlink.1.trans honly.deferred, by rw [hlink.2]; exact honly.interceptors⟩

/-! ### Changes of a loader alone -/

/-- Nothing has changed but a loader and what lies on its class path, and it still asks whom it
asked before. -/
structure OwnChange (id : LoaderId) (s t : Session) : Prop where
  files : t.files = s.files
  others : ∀ other, other ≠ id → t.loader? other = s.loader? other
  link : (t.loader? id).map Loader.link? = (s.loader? id).map Loader.link?
  entries : ∀ entry ∈ s.entriesOf id, entry ∈ t.entriesOf id
  count : s.holdings.length ≤ t.holdings.length
  holdings : ∀ entry : EntryId, entry.value < s.holdings.length → entry ∉ t.entriesOf id →
    t.entryAt? entry = s.entryAt? entry

theorem OwnChange.refl (id : LoaderId) (s : Session) : OwnChange id s s where
  files := rfl
  others _ _ := rfl
  link := rfl
  entries _ hentry := hentry
  count := Nat.le_refl _
  holdings _ _ _ := rfl

theorem OwnChange.trans (h : OwnChange id s t) (k : OwnChange id t u) : OwnChange id s u where
  files := k.files.trans h.files
  others other hother := (k.others other hother).trans (h.others other hother)
  link := k.link.trans h.link
  entries entry hentry := k.entries entry (h.entries entry hentry)
  count := h.count.trans k.count
  holdings entry hlt hnot := by
    have hnot' : entry ∉ t.entriesOf id := fun hmem => hnot (k.entries entry hmem)
    rw [k.holdings entry (Nat.lt_of_lt_of_le hlt h.count) hnot, h.holdings entry hlt hnot']

theorem ownChange_updateLoader (s : Session) (id : LoaderId) {f : Loader → Loader}
    (hlink : ∀ l, (f l).link? = l.link?) (hentries : ∀ l, (f l).entries = l.entries) :
    OwnChange id s (s.updateLoader id f) where
  files := rfl
  others _ hother := loader?_updateLoader_of_ne s f hother
  link := map_updateLoader Loader.link? s id id hlink
  entries entry hentry := by rwa [entriesOf_updateLoader s id id hentries]
  count := Nat.le_refl _
  holdings _ _ _ := rfl

theorem ownChange_appendTo (s : Session) (id : LoaderId) (entry : EntryId) :
    OwnChange id s (s.appendTo id entry) where
  files := rfl
  others _ hother := loader?_updateLoader_of_ne s _ hother
  link := map_updateLoader Loader.link? s id id fun l => by cases l <;> rfl
  entries _ hentry := mem_entriesOf_appendTo hentry
  count := Nat.le_refl _
  holdings _ _ _ := rfl

theorem ownChange_addEntry (s : Session) (id : LoaderId) (holding : Holding) :
    OwnChange id s (s.addEntry holding).2 where
  files := rfl
  others _ _ := rfl
  link := rfl
  entries _ hentry := hentry
  count := by simp [addEntry]
  holdings _ hlt _ := entryAt?_addEntry_of_lt s holding hlt

theorem ownChange_enter (s : Session) (c : DefinedClass) : OwnChange c.loader s (s.enter c) := by
  have hupdate := ownChange_updateLoader s c.loader
    (f := (·.mapTable (·.insert c.file.name c))) (fun l => by cases l <;> rfl)
    (fun l => by cases l <;> rfl)
  exact ⟨hupdate.files, hupdate.others, hupdate.link, hupdate.entries, hupdate.count,
    hupdate.holdings⟩

theorem ownChange_updateOwn (s : Session) (id : LoaderId) (position : Nat)
    (f : Holding → Holding) : OwnChange id s (s.updateOwn id position f) := by
  rw [updateOwn]
  split
  · next entry hentry =>
    have hmem : entry ∈ s.entriesOf id := List.mem_of_getElem? hentry
    exact {
      files := rfl
      others := fun _ _ => rfl
      link := rfl
      entries := fun _ h => h
      count := by simp [updateEntry]
      holdings := fun other _ hnot =>
        entryAt?_updateEntry_of_ne s f fun heq => hnot (by rw [heq]; exact hmem) }
  · exact .refl id s

theorem ownChange_append (s : Session) (id : LoaderId) (addition : Addition) :
    OwnChange id s (s.append id addition) := by
  cases addition with
  | fresh holding => exact (ownChange_addEntry s id holding).trans (ownChange_appendTo _ id _)
  | known entry => exact ownChange_appendTo s id entry
  | again position =>
    rw [append]
    split
    · exact ownChange_appendTo s id _
    · exact .refl id s

theorem ownChange_define (s : Session) (id : LoaderId) (d : Definition) :
    OwnChange id s (define id d s).2 := by
  rcases hdefine : (define id d s).1 with e | c
  · rw [define_of_error hdefine]
    exact .refl id s
  · obtain ⟨-, hclass, hstate⟩ := define_of_ok hdefine
    have hloader : c.loader = id := by rw [(Definition.classIn_eq_ok hclass).1]
    have hentered := ownChange_enter s c
    rw [hloader] at hentered
    rcases hstate with hstate | hstate <;> rw [hstate]
    · exact hentered
    · exact hentered.trans ((ownChange_addEntry _ id _).trans (ownChange_appendTo _ id _))

/-- Whatever is done with a loader is a search for a class, or a change of the loader alone. -/
theorem ownChange_or_searches (act : Act) (id : LoaderId) (s : Session) :
    OwnChange id s (act.perform id s).2 ∨
      ∃ name success, Searches (Reaches s name id) name success s (act.perform id s).2 := by
  cases act with
  | load name => exact .inr ⟨name, _, searches_load id name s⟩
  | find name => exact .inr ⟨name, _, searches_find id name s⟩
  | define d => exact .inl (ownChange_define s id d)
  | isDefined name => exact .inl (.refl id s)
  | resource path => exact .inl (.refl id s)
  | resources path => exact .inl (.refl id s)
  | addIgnores patterns =>
    exact .inl (ownChange_updateLoader s id (fun l => by cases l <;> rfl) fun l => by
      cases l <;> rfl)
  | append addition => exact .inl (ownChange_append s id addition)
  | synthesize name => exact .inl (ownChange_append s id (.fresh _))
  | insertClass position name bytes => exact .inl (ownChange_updateOwn s id position _)
  | insertResource position path bytes => exact .inl (ownChange_updateOwn s id position _)

/-- No entry is ever lost. -/
theorem count_le_perform (act : Act) (id : LoaderId) (s : Session) :
    s.holdings.length ≤ (act.perform id s).2.holdings.length := by
  rcases ownChange_or_searches act id s with hown | ⟨_, _, hsearch⟩
  · exact hown.count
  · rw [hsearch.holdings]

/-! ### Classes that are answered -/

theorem sameTables_updateOwn (s : Session) (id : LoaderId) (position : Nat)
    (f : Holding → Holding) : SameTables s (s.updateOwn id position f) := by
  rw [updateOwn]
  split
  · exact ⟨fun _ => rfl, rfl⟩
  · exact ⟨fun _ => rfl, rfl⟩

theorem sameTables_append (s : Session) (id : LoaderId) (addition : Addition) :
    SameTables s (s.append id addition) := by
  cases addition with
  | fresh holding => exact (sameTables_addEntry s holding).trans (sameTables_appendTo _ id _)
  | known entry => exact sameTables_appendTo s id entry
  | again position =>
    rw [append]
    split
    · exact sameTables_appendTo s id _
    · exact ⟨fun _ => rfl, rfl⟩

theorem grows_act (act : Act) (id : LoaderId) (s : Session) : Grows s (act.perform id s).2 := by
  cases act with
  | load name => exact (sound_load id name s).grows
  | find name => exact (sound_find id name s).grows
  | define d => exact (sound_define id d s).grows
  | isDefined _ => exact .refl
  | resource _ => exact .refl
  | resources _ => exact .refl
  | addIgnores patterns =>
    exact (sameTables_mapSelective s id
      (f := fun m => { m with policy := patterns.foldl Policy.addIgnore m.policy })
      fun _ => rfl).grows
  | append addition => exact (sameTables_append s id addition).grows
  | synthesize name => exact (sameTables_append s id (.fresh _)).grows
  | insertClass position name bytes => exact (sameTables_updateOwn s id position _).grows
  | insertResource position path bytes => exact (sameTables_updateOwn s id position _).grows

theorem Sound.find?_tableOf {name : String} {o : Outcome DefinedClass} {c : DefinedClass}
    (h : Sound name s o) (howned : Owned s) (hanswer : o.1 = .ok c) :
    (o.2.tableOf c.loader).find? c.file.name = some c := by
  obtain ⟨hname, hfind⟩ := h.kept howned c hanswer
  rw [hname, hfind]

/-- A class that is answered lies in its loader's table. -/
theorem find?_of_perform {act : Act} {c : DefinedClass} (howned : Owned s)
    (hanswer : (act.perform id s).1 = .loaded (.ok c)) :
    ((act.perform id s).2.tableOf c.loader).find? c.file.name = some c := by
  cases act with
  | load name => exact (sound_load id name s).find?_tableOf howned (Act.Answer.loaded.inj hanswer)
  | find name => exact (sound_find id name s).find?_tableOf howned (Act.Answer.loaded.inj hanswer)
  | define d => exact (sound_define id d s).find?_tableOf howned (Act.Answer.loaded.inj hanswer)
  | _ => cases hanswer

/-- A loader above a host answers no class but its own and the host's. -/
theorem loader_of_perform {host : HostLoader} {h : LoaderId} {act : Act} {c : DefinedClass}
    (howned : Owned s) (here : s.loader? h = some (.host host)) (habove : Above s h id)
    (hanswer : (act.perform id s).1 = .loaded (.ok c)) : c.loader = id ∨ c.loader = h := by
  cases act with
  | load name => exact loader_of_load howned here habove (Act.Answer.loaded.inj hanswer)
  | find name => exact loader_of_find howned here habove (Act.Answer.loaded.inj hanswer)
  | define d => exact .inl (loader_of_define (Act.Answer.loaded.inj hanswer))
  | _ => cases hanswer

/-- By induction on the run. -/
theorem grows_use (ops : List (LoaderId × Act)) (s : Session) : Grows s (use ops s).2 := by
  induction ops generalizing s with
  | nil => exact .refl
  | cons op rest ih => exact (grows_act op.2 op.1 s).trans (ih _)

/-- A class that was answered in a run lies in its loader's table ever after. By induction on the
run: the act that answers it leaves it there, and the rest of the run keeps it. -/
theorem find?_of_mem_use (hs : Consistent s) (ops : List (LoaderId × Act)) {c : DefinedClass}
    (hmem : (id, .loaded (.ok c)) ∈ (use ops s).1) :
    ((use ops s).2.tableOf c.loader).find? c.file.name = some c := by
  induction ops generalizing s with
  | nil => cases hmem
  | cons op rest ih =>
    rcases List.mem_cons.mp hmem with hfirst | hlater
    · have hanswer := (Prod.mk.inj hfirst).2.symm
      exact (grows_use rest _).find?_tableOf (find?_of_perform hs.owned hanswer)
    · exact ih (hs.grows (grows_act op.2 op.1 s)) hlater

/-- Two classes that were answered in a run are the same if they bear one name and belong to one
loader, or if they have one identity. -/
theorem eq_of_mem_use (hs : Consistent s) (ops : List (LoaderId × Act)) {c d : DefinedClass}
    {other : LoaderId} (hc : (id, .loaded (.ok c)) ∈ (use ops s).1)
    (hd : (other, .loaded (.ok d)) ∈ (use ops s).1) :
    (c.content = d.content → c = d) ∧ (c.handle = d.handle → c = d) := by
  have hfindc := find?_of_mem_use hs ops hc
  have hfindd := find?_of_mem_use hs ops hd
  constructor
  · intro hcontent
    have hloader : c.loader = d.loader := congrArg (·.1) hcontent
    have hfile : c.file = d.file := congrArg (·.2.2) hcontent
    rw [hloader, hfile, hfindd] at hfindc
    exact (Option.some.inj hfindc).symm
  · intro hhandle
    exact (hs.grows (grows_use ops s)).handles c.loader _ (Keyed.mem_of_find?_eq_some hfindc)
      d.loader _ (Keyed.mem_of_find?_eq_some hfindd) hhandle

end Session

end Understudy
