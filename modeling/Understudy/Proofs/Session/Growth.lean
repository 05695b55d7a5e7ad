import Mathlib.Logic.Relation
import Understudy.Proofs.ClassFile.Parsed
import Understudy.Proofs.Session.Tables

/-!
How the tables of a session grow. Whatever happens, they change by steps of two kinds: they all stay
as they are, or one loader enters one class under a name that was free. Every function that answers
a request has one lemma here, of the form `Sound`: it takes such steps only, and the class that it
answers is the one that its loader keeps. Main statements: `sound_perform` for requests and
`grows_run` for runs.
-/

namespace Understudy

namespace Session

/-- Every table is what it was, and no identity was given to a class. -/
structure SameTables (s t : Session) : Prop where
  tables : ∀ id, t.tableOf id = s.tableOf id
  next : t.nextHandle = s.nextHandle

/-- One step of the tables. A class that is entered was read from the bytes that it keeps, bears
the next identity, and belongs to the loader whose table it goes into. -/
inductive TableStep (s : Session) : Session → Prop where
  | stay {t : Session} (same : SameTables s t) : TableStep s t
  | enter (c : DefinedClass) (owner : s.keepsClasses c.loader = true)
      (handle : c.handle = ⟨s.nextHandle⟩) (parsed : ClassFile.parse c.file.bytes = .ok c.file)
      (free : (s.tableOf c.loader).find? c.file.name = none) : TableStep s (s.enter c)

/-- Any number of steps of the tables. -/
abbrev Grows : Session → Session → Prop := Relation.ReflTransGen TableStep

/-- A class found in a table has the name it is found under and belongs to the table's loader. -/
def Owned (s : Session) : Prop :=
  ∀ id name c, (s.tableOf id).find? name = some c → c.file.name = name ∧ c.loader = id

/-- An outcome that comes about by steps of the tables, and whose class, if it has one, bears the
name asked for and is what its loader keeps under that name. -/
structure Sound (name : String) (s : Session) (o : Outcome DefinedClass) : Prop where
  grows : Grows s o.2
  kept : Owned s → ∀ c, o.1 = .ok c →
    c.file.name = name ∧ (o.2.tableOf c.loader).find? name = some c

/-! ### Steps that leave the tables alone -/

theorem SameTables.grows {s t : Session} (h : SameTables s t) : Grows s t := .single (.stay h)

theorem SameTables.owned {s t : Session} (h : SameTables s t) (ho : Owned s) : Owned t := by
  intro id name c hc
  rw [h.tables] at hc
  exact ho id name c hc

theorem SameTables.trans {s t u : Session} (h : SameTables s t) (k : SameTables t u) :
    SameTables s u :=
  ⟨fun id => (k.tables id).trans (h.tables id), k.next.trans h.next⟩

theorem sameTables_count (s : Session) (id : LoaderId) (event : LoadEvent) :
    SameTables s (s.count id event) := ⟨fun _ => tableOf_count s id _ event, rfl⟩

theorem sameTables_mapSelective (s : Session) (id : LoaderId)
    {f : SelectiveLoader → SelectiveLoader} (h : ∀ m, (f m).table = m.table) :
    SameTables s (s.updateLoader id (·.mapSelective f)) :=
  ⟨fun _ => tableOf_mapSelective s id _ h, rfl⟩

theorem sameTables_appendTo (s : Session) (id : LoaderId) (entry : EntryId) :
    SameTables s (s.appendTo id entry) :=
  ⟨fun _ => tableOf_updateLoader s id _ fun l => l.table_mapEntries _, rfl⟩

theorem sameTables_addLoader (s : Session) {l : Loader} (h : l.table = []) :
    SameTables s (s.addLoader l).2 := ⟨fun _ => tableOf_addLoader s _ h, rfl⟩

theorem sameTables_addEntry (s : Session) (holding : Holding) :
    SameTables s (s.addEntry holding).2 := ⟨fun _ => rfl, rfl⟩

theorem sameTables_keepBytes (s : Session) (id : LoaderId) (c : DefinedClass) :
    SameTables s (s.keepBytes id c) :=
  (sameTables_addEntry s _).trans (sameTables_appendTo _ id _)

/-! ### What a table holds is kept -/

theorem TableStep.find?_tableOf {s t : Session} (h : TableStep s t) {id : LoaderId} {name : String}
    {c : DefinedClass} (hc : (s.tableOf id).find? name = some c) :
    (t.tableOf id).find? name = some c := by
  cases h with
  | stay same => rw [same.tables]; exact hc
  | enter d owner _ _ free =>
    have hother : id ≠ d.loader ∨ d.file.name ≠ name := by
      refine Decidable.not_and_iff_or_not.mp ?_
      rintro ⟨rfl, rfl⟩
      rw [free] at hc
      cases hc
    rw [find?_enter_of_ne owner hother]
    exact hc

theorem Grows.find?_tableOf {s t : Session} (h : Grows s t) {id : LoaderId} {name : String}
    {c : DefinedClass} (hc : (s.tableOf id).find? name = some c) :
    (t.tableOf id).find? name = some c := by
  induction h with
  | refl => exact hc
  | tail _ step ih => exact step.find?_tableOf ih

/-! ### Outcomes -/

theorem Sound.error {name : String} (s : Session) (e : Error) :
    Sound name s (.error e, s) := ⟨.refl, fun _ _ h => nomatch h⟩

/-- Whatever leaves the tables alone may follow. -/
theorem Sound.followed {name : String} {s t u : Session} {r : Except Error DefinedClass}
    (h : Sound name s (r, t)) (k : SameTables t u) : Sound name s (r, u) := by
  refine ⟨h.grows.trans k.grows, fun ho c hc => ?_⟩
  rw [k.tables]
  exact h.kept ho c hc

/-- Whatever leaves the tables alone may come first. -/
theorem Sound.preceded {name : String} {s t : Session} {o : Outcome DefinedClass}
    (k : SameTables s t) (h : Sound name t o) : Sound name s o :=
  ⟨k.grows.trans h.grows, fun ho => h.kept (k.owned ho)⟩

/-- A class that is found in a table is answered as it is. -/
theorem Sound.found {name : String} {s : Session} {id : LoaderId} {c : DefinedClass}
    (h : (s.tableOf id).find? name = some c) : Sound name s (.ok c, s) := by
  refine ⟨.refl, fun ho c' hc => ?_⟩
  obtain rfl := Except.ok.inj hc
  obtain ⟨hname, hloader⟩ := ho id name c h
  rw [hloader]
  exact ⟨hname, h⟩

/-- A class that is entered under a free name may be answered. -/
theorem Sound.entered {s : Session} {c : DefinedClass} (owner : s.keepsClasses c.loader = true)
    (handle : c.handle = ⟨s.nextHandle⟩) (parsed : ClassFile.parse c.file.bytes = .ok c.file)
    (free : (s.tableOf c.loader).find? c.file.name = none) :
    Sound c.file.name s (.ok c, s.enter c) := by
  refine ⟨.single (.enter c owner handle parsed free), fun _ c' hc => ?_⟩
  obtain rfl := Except.ok.inj hc
  exact ⟨rfl, find?_enter_self owner⟩

end Session

/-! ### Classes that are found or defined -/

/-- What a class path finds was read from bytes that one of its entries holds. -/
theorem ClassPath.parse_of_find {tree : FileTree} {cp : ClassPath} {name : String}
    {file : ClassFile} (h : cp.find tree name = .ok (some file)) :
    ClassFile.parse file.bytes = .ok file := by
  rw [ClassPath.find] at h
  split at h
  · cases h
  · cases h
  · next bytes _ =>
    cases hparse : ClassFile.parse bytes with
    | error e =>
      rw [hparse] at h
      cases h
    | ok parsed =>
      rw [hparse] at h
      cases h
      rw [ClassFile.bytes_of_parse hparse]
      exact hparse

theorem Definition.classFile_eq_ok {d : Definition} {file : ClassFile}
    (h : d.classFile = .ok file) :
    d.window = .ok file.bytes ∧ ClassFile.parse file.bytes = .ok file ∧ file.name = d.name := by
  rw [Definition.classFile] at h
  split at h
  · cases h
  · next bytes hwindow =>
    split at h
    · cases h
    · next parsed hparse =>
      split at h
      · next hname =>
        obtain rfl := Except.ok.inj h
        have hbytes := ClassFile.bytes_of_parse hparse
        rw [hbytes]
        exact ⟨hwindow, hparse, hname⟩
      · cases h

theorem Definition.classIn_eq_ok {d : Definition} {table : ClassTable} {owner : LoaderId}
    {handle : ClassHandle} {c : DefinedClass} (h : d.classIn table owner handle = .ok c) :
    c = ⟨handle, owner, d.domain, c.file⟩ ∧ d.classFile = .ok c.file ∧
      table.find? d.name = none := by
  rw [Definition.classIn] at h
  split at h
  · cases h
  · next file hfile =>
    split at h
    · cases h
    · next hfree =>
      obtain rfl := Except.ok.inj h
      exact ⟨rfl, hfile, by simpa [Keyed.has] using hfree⟩

namespace Session

variable {s : Session} {id : LoaderId} {name : String}

theorem sound_defineInTable (h : s.keepsClasses id = true) (d : Definition) :
    Sound d.name s (defineInTable id d s) := by
  rw [defineInTable]
  split
  · exact .error s _
  · next c hc =>
    obtain ⟨hshape, hfile, hfree⟩ := Definition.classIn_eq_ok hc
    obtain ⟨-, hparse, hname⟩ := Definition.classFile_eq_ok hfile
    have howner : c.loader = id := by rw [hshape]
    rw [← hname]
    refine .entered (howner ▸ h) (by rw [hshape]) hparse ?_
    rw [howner, hname]
    exact hfree

theorem sound_define (id : LoaderId) (d : Definition) (s : Session) :
    Sound d.name s (define id d s) := by
  rw [define]
  split
  · next host hid => exact sound_defineInTable (keepsClasses_of_host hid) d
  · next loader hid =>
    have hsound := sound_defineInTable (keepsClasses_of_selective hid) d
    split
    · next c t hdefine =>
      rw [hdefine] at hsound
      exact hsound.followed (sameTables_keepBytes t id c)
    · exact hsound
  · exact .error s _

/-! ### Loads -/

theorem sound_loadFromHost {host : HostLoader} (h : s.loader? id = some (.host host)) :
    Sound name s (loadFromHost id host name s) := by
  have htable : s.tableOf id = host.table := by rw [tableOf, h]; rfl
  rw [loadFromHost]
  split
  · next c hc => exact .found (htable ▸ hc)
  · next hnone =>
    split
    · exact .error s _
    · exact .error s _
    · next file hfind =>
      split
      · next hname =>
        have hparse := ClassPath.parse_of_find hfind
        subst hname
        exact Sound.entered (c := ⟨⟨s.nextHandle⟩, id, {}, file⟩) (keepsClasses_of_host h) rfl
          hparse (htable ▸ hnone)
      · exact .error s _

theorem sound_defineOwned (h : s.keepsClasses id = true) (loader : SelectiveLoader)
    (event : LoadEvent) (file : ClassFile) :
    Sound name s (defineOwned id loader name event file s) := by
  have hsound := sound_defineInTable h (.whole name file.bytes loader.domain)
  rw [defineOwned]
  split
  · next c t hdefine =>
    rw [hdefine] at hsound
    exact hsound.followed (sameTables_count t id event)
  · exact hsound

theorem sound_loadOwned (h : s.keepsClasses id = true) (loader : SelectiveLoader) (modify : Bool) :
    Sound name s (loadOwned id loader modify name s) := by
  rw [loadOwned]
  split
  · exact .error s _
  · exact (Sound.error s _).followed (sameTables_count s id .notFound)
  · next file _ =>
    split
    · -- the chain leaves its visits behind and nothing else
      have hvisits : SameTables s (transform id loader name file s).2 := ⟨fun _ => rfl, rfl⟩
      split
      · next e t ht =>
        rw [ht] at hvisits
        exact (Sound.error s e).followed hvisits
      · next changed t ht =>
        have hkeeps : t.keepsClasses id = true := by
          rw [show t = (transform id loader name file s).2 by rw [ht]]
          exact h
        rw [ht] at hvisits
        exact (sound_defineOwned hkeeps loader .transformed changed).preceded hvisits
    · exact sound_defineOwned h loader .unmodified file

/-- Asking keeps every session sound. -/
def SoundAsking (ask : Asking) : Prop := ∀ id name s, Sound name s (ask id name s)

theorem sound_loadDeferred {ask : Asking} (hask : SoundAsking ask) (loader : SelectiveLoader) :
    Sound name s (loadDeferred ask id loader name s) := by
  have hsound := hask loader.deferred name s
  rw [loadDeferred]
  split
  · next c t hanswer =>
    rw [hanswer] at hsound
    exact hsound.followed (sameTables_count t id .deferred)
  · next e t hanswer =>
    rw [hanswer] at hsound
    split
    · exact hsound.followed (sameTables_count t id .notFound)
    · exact hsound

theorem sound_findSelective {ask : Asking} (hask : SoundAsking ask) (h : s.keepsClasses id = true)
    (loader : SelectiveLoader) : Sound name s (findSelective ask id loader name s) := by
  rw [findSelective]
  split
  · next interceptor _ =>
    have hclaim : Sound name s (answerClaim ask name interceptor s) := by
      cases interceptor with
      | route route => exact hask route.target name s
      | refuse _ e => exact .error s e
    exact hclaim.followed (sameTables_count _ id .intercepted)
  · split
    · exact sound_loadOwned h loader true
    · exact sound_loadOwned h loader false
    · exact sound_loadDeferred hask loader

theorem sound_loadAsking {ask : Asking} (hask : SoundAsking ask) :
    SoundAsking (loadAsking ask) := by
  intro id name s
  rw [loadAsking]
  split
  · next host hid => exact sound_loadFromHost hid
  · next loader hid =>
    rw [loadFromSelective]
    split
    · next c hc =>
      have hfound : (s.tableOf id).find? name = some c := by rw [tableOf, hid]; exact hc
      exact (Sound.found hfound).followed (sameTables_count s id .cacheHit)
    · exact sound_findSelective hask (keepsClasses_of_selective hid) loader
  · exact .error s _

/-- By induction on how many loaders may ask each other in turn. -/
theorem sound_loadWithin (depth : Nat) : SoundAsking (loadWithin depth) := by
  induction depth with
  | zero => exact fun _ _ s => .error s _
  | succ depth ih => exact sound_loadAsking ih

theorem sound_load (id : LoaderId) (name : String) (s : Session) : Sound name s (load id name s) :=
  sound_loadWithin s.loaders.length id name s

theorem sound_find (id : LoaderId) (name : String) (s : Session) :
    Sound name s (find id name s) := by
  rw [find]
  split
  · next loader hid =>
    exact sound_findSelective (sound_loadWithin _) (keepsClasses_of_selective hid) loader
  · exact sound_load id name s

/-- Every request is answered soundly. -/
theorem sound_perform (r : Request) (s : Session) : Sound r.name s (r.perform s) := by
  cases r with
  | load id name => exact sound_load id name s
  | find id name => exact sound_find id name s
  | define id d => exact sound_define id d s

/-! ### Changes and runs -/

theorem AddsEntries.sameTables {s t : Session} (h : AddsEntries s t) : SameTables s t := by
  obtain ⟨more, rfl⟩ := h
  exact ⟨fun _ => rfl, rfl⟩

theorem sameTables_addSelective (config : Setup) (s : Session) :
    SameTables s (s.addSelective config).2 := by
  have hspec := addSelective_spec config s
  rcases hadded : s.addSelective config with ⟨e | id, t⟩
  · rw [hadded] at hspec
    exact AddsEntries.sameTables hspec
  · rw [hadded] at hspec
    obtain ⟨u, entries, hadds, hnew⟩ := hspec
    obtain ⟨-, rfl⟩ := Prod.mk.inj hnew
    exact hadds.sameTables.trans (sameTables_addLoader u rfl)

/-- A change never touches a table. -/
theorem sameTables_perform (change : Change) (s : Session) : SameTables s (change.perform s) := by
  cases change with
  | putFiles _ => exact ⟨fun _ => rfl, rfl⟩
  | addEntry _ => exact ⟨fun _ => rfl, rfl⟩
  | insertClass _ _ _ => exact ⟨fun _ => rfl, rfl⟩
  | insertResource _ _ _ => exact ⟨fun _ => rfl, rfl⟩
  | addHost _ => exact sameTables_addLoader s rfl
  | addResourceLoader _ _ => exact sameTables_addLoader s rfl
  | addSelective config => exact sameTables_addSelective config s
  | appendTo id entry => exact sameTables_appendTo s id entry
  | setChain id _ => exact sameTables_mapSelective s id fun _ => rfl
  | setDeferred id _ => exact sameTables_mapSelective s id fun _ => rfl
  | addInterceptor id _ => exact sameTables_mapSelective s id fun _ => rfl
  | addIgnores id _ => exact sameTables_mapSelective s id fun _ => rfl

/-- A run is made of steps of the tables. -/
theorem grows_run (ops : List Operation) (s : Session) : Grows s (run ops s).2 := by
  induction ops generalizing s with
  | nil => exact .refl
  | cons op rest ih =>
    cases op with
    | request r => exact (sound_perform r s).grows.trans (ih (r.perform s).2)
    | change c => exact (sameTables_perform c s).grows.trans (ih (c.perform s))

end Session

end Understudy
