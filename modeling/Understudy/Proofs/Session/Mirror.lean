import Mathlib.Logic.Equiv.Basic
import Understudy.Proofs.ClassPath.Renaming
import Understudy.Proofs.Session.Use

/-!
Two sessions that a loader cannot tell apart. They differ in what its sibling is and holds and has
had the host load, and in the identities given out meanwhile. Each single change that both of them
undergo keeps them so, and so does whatever is done with the sibling in one of them. Main statement:
`Mirrors.left`.
-/

namespace Understudy

namespace Session

/-- Two selective loaders above a host, and what of the session is there before they are used: how
many entries, those of the host, and what the host answers. -/
structure Scene where
  left : LoaderId
  right : LoaderId
  host : LoaderId
  known : Nat
  shared : List EntryId
  view : String → Except Error DefinedClass.Content
  left_ne_right : left ≠ right
  left_ne_host : left ≠ host
  right_ne_host : right ≠ host
  shared_known : ∀ entry ∈ shared, entry.value < known

/-- The same loader in two sessions, where the entries of the second one, `count` of them, have
other identities in the first one. -/
structure Twins (host : LoaderId) (count : Nat) (ρ : EntryId → EntryId)
    (loader twin : SelectiveLoader) : Prop where
  policy : loader.policy = twin.policy
  suppressStatic : loader.suppressStatic = twin.suppressStatic
  chain : loader.chain = twin.chain
  deferred : loader.deferred = twin.deferred
  interceptors : loader.interceptors = twin.interceptors
  domain : loader.domain = twin.domain
  stats : loader.stats = twin.stats
  table : ∀ name, (loader.table.find? name).map DefinedClass.content =
    (twin.table.find? name).map DefinedClass.content
  entries : loader.entries = twin.entries.map ρ
  held : ∀ entry ∈ twin.entries, entry.value < count
  target : twin.deferred = host
  routes : ∀ interceptor ∈ twin.interceptors, ∃ leads, interceptor = .route ⟨leads, host⟩

/-- The second session is the first one as the right loader sees it. The left loader is above the
host in the first session, and may be anything in the second one. -/
structure Mirrors (scene : Scene) (ρ : Equiv.Perm EntryId) (s t : Session) : Prop where
  files : t.files = s.files
  serves : Serves scene.host scene.shared scene.view s
  serves' : Serves scene.host scene.shared scene.view t
  above : Above s scene.host scene.left
  twins : ∃ loader twin, s.loader? scene.right = some (.selective loader) ∧
    t.loader? scene.right = some (.selective twin) ∧
      Twins scene.host t.holdings.length ρ loader twin
  known : scene.known ≤ t.holdings.length
  fixed : ∀ entry : EntryId, entry.value < scene.known → ρ entry = entry
  within : ∀ entry : EntryId, entry.value < t.holdings.length →
    (ρ entry).value < s.holdings.length
  contents : ∀ entry : EntryId, entry.value < t.holdings.length →
    (ρ entry ∈ s.entriesOf scene.left → ρ entry ∈ scene.shared) →
      s.entryAt? (ρ entry) = (t.entryAt? entry).map (Entry.rename ρ)

variable {scene : Scene} {ρ σ : Equiv.Perm EntryId} {s t s' t' : Session} {name : String}

/-! ### Changes that both sessions undergo -/

/-- What is counted for classes and noted of visits does not matter. -/
theorem Mirrors.with (h : Mirrors scene ρ s t) (next next' : Nat) (visits visits' : List Visit) :
    Mirrors scene ρ { s with nextHandle := next, visits := visits }
      { t with nextHandle := next', visits := visits' } :=
  ⟨h.files, h.serves, h.serves', h.above, h.twins, h.known, h.fixed, h.within, h.contents⟩

/-- The identities of entries that are not there do not matter. -/
theorem Mirrors.congr (h : Mirrors scene ρ s t)
    (hσ : ∀ entry : EntryId, entry.value < t.holdings.length → σ entry = ρ entry) :
    Mirrors scene σ s t where
  files := h.files
  serves := h.serves
  serves' := h.serves'
  above := h.above
  twins := by
    obtain ⟨loader, twin, here, there, htwins⟩ := h.twins
    refine ⟨loader, twin, here, there, { htwins with entries := ?_ }⟩
    rw [htwins.entries]
    exact List.map_congr_left fun entry hentry => (hσ entry (htwins.held entry hentry)).symm
  known := h.known
  fixed entry hlt := (hσ entry (Nat.lt_of_lt_of_le hlt h.known)).trans (h.fixed entry hlt)
  within entry hlt := by rw [hσ entry hlt]; exact h.within entry hlt
  contents entry hlt hleft := by
    rw [hσ entry hlt] at hleft ⊢
    rw [h.contents entry hlt hleft]
    rcases hentry : t.entryAt? entry with _ | e
    · rfl
    · have hid : e.id = entry := by
        obtain ⟨_, _, rfl⟩ := Option.map_eq_some_iff.mp hentry
        rfl
      simp [Entry.rename, hid, hσ entry hlt]

/-- The right loader is changed alike in both sessions. -/
theorem Mirrors.updateRight (h : Mirrors scene ρ s t) {f g : Loader → Loader}
    {f' g' : SelectiveLoader → SelectiveLoader} (hf : ∀ m, f (.selective m) = .selective (f' m))
    (hg : ∀ m, g (.selective m) = .selective (g' m))
    (htwins : ∀ loader twin, Twins scene.host t.holdings.length ρ loader twin →
      Twins scene.host t.holdings.length ρ (f' loader) (g' twin)) :
    Mirrors scene ρ (s.updateLoader scene.right f) (t.updateLoader scene.right g) := by
  have hhost := loader?_updateLoader_of_ne s f scene.right_ne_host.symm
  have hhost' := loader?_updateLoader_of_ne t g scene.right_ne_host.symm
  have hleft := loader?_updateLoader_of_ne s f scene.left_ne_right
  have hentries : (s.updateLoader scene.right f).entriesOf scene.left = s.entriesOf scene.left := by
    rw [entriesOf, hleft, entriesOf]
  refine ⟨h.files, h.serves.of_same hhost rfl rfl, h.serves'.of_same hhost' rfl rfl, ?_, ?_,
    h.known, h.fixed, h.within, ?_⟩
  · obtain ⟨loader, here, honly⟩ := h.above
    exact ⟨loader, hleft.trans here, honly⟩
  · obtain ⟨loader, twin, here, there, hpair⟩ := h.twins
    refine ⟨f' loader, g' twin, ?_, ?_, htwins loader twin hpair⟩
    · rw [loader?_updateLoader_self, here, Option.map_some, hf]
    · rw [loader?_updateLoader_self, there, Option.map_some, hg]
  · intro entry hlt hmem
    rw [hentries] at hmem
    exact h.contents entry hlt hmem

theorem Mirrors.count (h : Mirrors scene ρ s t) (event : LoadEvent) :
    Mirrors scene ρ (s.count scene.right event) (t.count scene.right event) :=
  h.updateRight (fun _ => rfl) (fun _ => rfl) fun _ _ htwins =>
    { htwins with stats := by rw [htwins.stats] }

theorem Mirrors.addIgnores (h : Mirrors scene ρ s t) (patterns : List String) :
    Mirrors scene ρ (s.addIgnores scene.right patterns) (t.addIgnores scene.right patterns) :=
  h.updateRight (fun _ => rfl) (fun _ => rfl) fun _ _ htwins =>
    { htwins with policy := by rw [htwins.policy] }

theorem Mirrors.appendTo (h : Mirrors scene ρ s t) {entry : EntryId}
    (hlt : entry.value < t.holdings.length) :
    Mirrors scene ρ (s.appendTo scene.right (ρ entry)) (t.appendTo scene.right entry) :=
  h.updateRight (fun _ => rfl) (fun _ => rfl) fun _ _ htwins =>
    { htwins with
      entries := by simp [htwins.entries]
      held := by
        intro other hother
        rcases List.mem_append.mp hother with hold | hnew
        · exact htwins.held other hold
        · rwa [List.mem_singleton.mp hnew] }

/-- The same class is entered in both sessions, under whatever identities. -/
theorem Mirrors.enter (h : Mirrors scene ρ s t) {c d : DefinedClass}
    (hcontent : c.content = d.content) (hloader : c.loader = scene.right) :
    Mirrors scene ρ (s.enter c) (t.enter d) := by
  have hloader' : d.loader = scene.right := (congrArg (·.1) hcontent).symm.trans hloader
  have hname : c.file.name = d.file.name := congrArg (·.2.2.name) hcontent
  have hupdate := h.updateRight (f := (·.mapTable (·.insert c.file.name c)))
    (g := (·.mapTable (·.insert d.file.name d))) (fun _ => rfl) (fun _ => rfl)
    fun loader twin htwins => { htwins with
      table := by
        intro name
        by_cases heq : d.file.name = name
        · subst heq
          simp [hname, hcontent]
        · simp only [Keyed.find?_insert_of_ne _ _ heq, hname]
          exact htwins.table name }
  have hmirrors := hupdate.with (s.nextHandle + 1) (t.nextHandle + 1) s.visits t.visits
  rw [Session.enter, Session.enter, hloader, hloader']
  exact hmirrors

/-- An entry is added to both sessions. -/
theorem Mirrors.addEntry (h : Mirrors scene ρ s t) (holding : Holding)
    (hnew : ρ ⟨t.holdings.length⟩ = ⟨s.holdings.length⟩) :
    Mirrors scene ρ (s.addEntry holding).2 (t.addEntry holding).2 := by
  have hlength : (s.addEntry holding).2.holdings.length = s.holdings.length + 1 := by
    simp [Session.addEntry]
  have hlength' : (t.addEntry holding).2.holdings.length = t.holdings.length + 1 := by
    simp [Session.addEntry]
  have hold : ∀ entry : EntryId, entry.value < t.holdings.length + 1 →
      entry.value < t.holdings.length ∨ entry = ⟨t.holdings.length⟩ := by
    rintro ⟨n⟩ hlt
    rcases Nat.lt_succ_iff_lt_or_eq.mp hlt with hlt | heq
    · exact .inl hlt
    · exact .inr (by rw [← heq])
  have hshared : ∀ entry ∈ scene.shared, entry.value < t.holdings.length := fun entry hmem =>
    Nat.lt_of_lt_of_le (scene.shared_known entry hmem) h.known
  have hshared' : ∀ entry ∈ scene.shared, entry.value < s.holdings.length := fun entry hmem => by
    have hlt := h.within entry (hshared entry hmem)
    rwa [h.fixed entry (scene.shared_known entry hmem)] at hlt
  refine ⟨h.files, h.serves.of_same rfl ?_ rfl, h.serves'.of_same rfl ?_ rfl, h.above, ?_, ?_,
    h.fixed, ?_, ?_⟩
  · exact classPathOf_congr fun entry hmem =>
      entryAt?_addEntry_of_lt s holding (hshared' entry hmem)
  · exact classPathOf_congr fun entry hmem =>
      entryAt?_addEntry_of_lt t holding (hshared entry hmem)
  · obtain ⟨loader, twin, here, there, htwins⟩ := h.twins
    refine ⟨loader, twin, here, there, { htwins with held := fun entry hmem => ?_ }⟩
    rw [hlength']
    exact Nat.lt_succ_of_lt (htwins.held entry hmem)
  · rw [hlength']
    exact Nat.le_succ_of_le h.known
  · intro entry hlt
    rw [hlength'] at hlt
    rw [hlength]
    rcases hold entry hlt with hlt | rfl
    · exact Nat.lt_succ_of_lt (h.within entry hlt)
    · rw [hnew]
      exact Nat.lt_succ_self _
  · intro entry hlt hmem
    rw [hlength'] at hlt
    rcases hold entry hlt with hlt | rfl
    · rw [entryAt?_addEntry_of_lt s holding (h.within entry hlt),
        entryAt?_addEntry_of_lt t holding hlt]
      exact h.contents entry hlt hmem
    · rw [hnew, entryAt?_addEntry_self, entryAt?_addEntry_self, Option.map_some, Entry.rename, hnew]

/-! ### Changes of entries -/

/-- A class path in one session is that of the other one, renamed, if the left loader cannot have
changed its entries. -/
theorem Mirrors.classPathOf_map (h : Mirrors scene ρ s t) {entries : List EntryId}
    (hentries : ∀ entry ∈ entries, entry.value < t.holdings.length ∧
      (ρ entry ∈ s.entriesOf scene.left → ρ entry ∈ scene.shared)) :
    s.classPathOf (entries.map ρ) = (t.classPathOf entries).rename ρ := by
  have hall : ∀ entry ∈ entries, (s.entryAt? ∘ ρ) entry = (t.entryAt? entry).map (Entry.rename ρ) :=
    fun entry hmem => h.contents entry (hentries entry hmem).1 (hentries entry hmem).2
  simp only [classPathOf, ClassPath.rename, List.filterMap_map, List.map_filterMap,
    List.filterMap_congr hall]

theorem Mirrors.entryAt?_shared (h : Mirrors scene ρ s t) {entry : EntryId}
    (hmem : entry ∈ scene.shared) :
    s.entryAt? entry = (t.entryAt? entry).map (Entry.rename ρ) := by
  have hknown := scene.shared_known entry hmem
  have hcontents := h.contents entry (Nat.lt_of_lt_of_le hknown h.known)
  rw [h.fixed entry hknown] at hcontents
  exact hcontents fun _ => hmem

theorem Mirrors.classPathOf_shared (h : Mirrors scene ρ s t) :
    s.classPathOf scene.shared = (t.classPathOf scene.shared).rename ρ := by
  have hself : scene.shared.map ρ = scene.shared := by
    conv_rhs => rw [← List.map_id scene.shared]
    exact List.map_congr_left fun entry hmem => h.fixed entry (scene.shared_known entry hmem)
  rw [← h.classPathOf_map, hself]
  intro entry hmem
  have hknown := scene.shared_known entry hmem
  exact ⟨Nat.lt_of_lt_of_le hknown h.known, fun _ => by rwa [h.fixed entry hknown]⟩

/-- The left and the right loader have no entry in common. -/
def Apart (scene : Scene) (s : Session) : Prop :=
  ∀ entry ∈ s.entriesOf scene.left, entry ∉ s.entriesOf scene.right

theorem Mirrors.classPathOf_own (h : Mirrors scene ρ s t) (hapart : Apart scene s)
    {loader twin : SelectiveLoader} (here : s.loader? scene.right = some (.selective loader))
    (htwins : Twins scene.host t.holdings.length ρ loader twin) :
    s.classPathOf loader.entries = (t.classPathOf twin.entries).rename ρ := by
  rw [htwins.entries]
  refine h.classPathOf_map fun entry hmem => ⟨htwins.held entry hmem, fun hleft => ?_⟩
  refine absurd ?_ (hapart _ hleft)
  rw [entriesOf, here]
  change ρ entry ∈ loader.entries
  rw [htwins.entries]
  exact List.mem_map_of_mem hmem

/-- An entry is changed alike in both sessions. It may be an entry of the host if it holds what it
held before. -/
theorem Mirrors.updateEntry (h : Mirrors scene ρ s t) (entry : EntryId) (f : Holding → Holding)
    (hshared : ∀ other ∈ scene.shared,
      (s.updateEntry (ρ entry) f).entryAt? other = s.entryAt? other) :
    Mirrors scene ρ (s.updateEntry (ρ entry) f) (t.updateEntry entry f) := by
  have hlength : (s.updateEntry (ρ entry) f).holdings.length = s.holdings.length := by
    simp [Session.updateEntry]
  have hlength' : (t.updateEntry entry f).holdings.length = t.holdings.length := by
    simp [Session.updateEntry]
  have hcontents : ∀ other : EntryId, other.value < t.holdings.length →
      (ρ other ∈ s.entriesOf scene.left → ρ other ∈ scene.shared) →
        (s.updateEntry (ρ entry) f).entryAt? (ρ other) =
          ((t.updateEntry entry f).entryAt? other).map (Entry.rename ρ) := by
    intro other hlt hleft
    by_cases heq : other = entry
    · subst heq
      rw [entryAt?_updateEntry_self, entryAt?_updateEntry_self, h.contents other hlt hleft,
        Option.map_map, Option.map_map]
      rfl
    · rw [entryAt?_updateEntry_of_ne s f fun hρ => heq (ρ.injective hρ),
        entryAt?_updateEntry_of_ne t f heq]
      exact h.contents other hlt hleft
  -- what is unchanged in the first session is unchanged in the second one
  have hshared' : ∀ other ∈ scene.shared,
      (t.updateEntry entry f).entryAt? other = t.entryAt? other := by
    intro other hmem
    have hknown := scene.shared_known other hmem
    have hafter := hcontents other (Nat.lt_of_lt_of_le hknown h.known) fun _ => by
      rwa [h.fixed other hknown]
    rw [h.fixed other hknown, hshared other hmem, h.entryAt?_shared hmem] at hafter
    exact (Option.map_injective (Entry.rename_injective ρ.injective) hafter).symm
  refine ⟨h.files, h.serves.of_same rfl (classPathOf_congr hshared) rfl,
    h.serves'.of_same rfl (classPathOf_congr hshared') rfl, h.above, ?_, ?_, h.fixed, ?_, ?_⟩
  · rw [hlength']
    exact h.twins
  · rw [hlength']
    exact h.known
  · rw [hlength, hlength']
    exact h.within
  · rw [hlength']
    exact hcontents

/-! ### What the left loader is used for -/

/-- The right loader cannot tell that others have searched in the first session. -/
theorem Mirrors.searched (h : Mirrors scene ρ s t) {among : LoaderId → Prop} {success : Bool}
    (hsearch : Searches among name success s s') (hright : ¬ among scene.right) :
    Mirrors scene ρ s' t where
  files := h.files.trans hsearch.files.symm
  serves := h.serves.searches hsearch
  serves' := h.serves'
  above := h.above.of_link (hsearch.link?_eq _)
  twins := by
    obtain ⟨loader, twin, here, htwins⟩ := h.twins
    exact ⟨loader, twin, (hsearch.loader?_eq hright).trans here, htwins⟩
  known := h.known
  fixed := h.fixed
  within := by rw [hsearch.holdings]; exact h.within
  contents entry hlt hleft := by
    rw [hsearch.entriesOf_eq] at hleft
    rw [hsearch.entryAt?_eq]
    exact h.contents entry hlt hleft

/-- The right loader cannot tell that others have searched in the second session. -/
theorem Mirrors.searched' (h : Mirrors scene ρ s t) {among : LoaderId → Prop} {success : Bool}
    (hsearch : Searches among name success t t') (hright : ¬ among scene.right) :
    Mirrors scene ρ s t' where
  files := hsearch.files.trans h.files
  serves := h.serves
  serves' := h.serves'.searches hsearch
  above := h.above
  twins := by
    obtain ⟨loader, twin, here, there, htwins⟩ := h.twins
    rw [← hsearch.holdings] at htwins
    exact ⟨loader, twin, here, (hsearch.loader?_eq hright).trans there, htwins⟩
  known := by rw [hsearch.holdings]; exact h.known
  fixed := h.fixed
  within := by rw [hsearch.holdings]; exact h.within
  contents entry hlt hleft := by
    rw [hsearch.holdings] at hlt
    rw [hsearch.entryAt?_eq]
    exact h.contents entry hlt hleft

/-- Whatever is done with the left loader in the first session, the right loader cannot tell, as
long as the entries of the host hold what they held. -/
theorem Mirrors.left (h : Mirrors scene ρ s t) (act : Act)
    (hshared : ∀ entry ∈ scene.shared,
      (act.perform scene.left s).2.entryAt? entry = s.entryAt? entry) :
    Mirrors scene ρ (act.perform scene.left s).2 t := by
  rcases ownChange_or_searches act scene.left s with hown | ⟨name, success, hsearch⟩
  · refine ⟨h.files.trans hown.files.symm, h.serves.of_same (hown.others _ ?_)
      (classPathOf_congr hshared) hown.files, h.serves', h.above.of_link hown.link, ?_, h.known,
      h.fixed, fun entry hlt => Nat.lt_of_lt_of_le (h.within entry hlt) hown.count, ?_⟩
    · exact scene.left_ne_host.symm
    · obtain ⟨loader, twin, here, htwin⟩ := h.twins
      exact ⟨loader, twin, (hown.others _ scene.left_ne_right.symm).trans here, htwin⟩
    · intro entry hlt hleft
      by_cases hmem : ρ entry ∈ scene.shared
      · rw [hshared _ hmem]
        exact h.contents entry hlt fun _ => hmem
      · have hnot : ρ entry ∉ (act.perform scene.left s).2.entriesOf scene.left :=
          fun hin => hmem (hleft hin)
        rw [hown.holdings _ (h.within entry hlt) hnot]
        exact h.contents entry hlt fun hin => absurd (hown.entries _ hin) hnot
  · obtain ⟨table, hhost, -⟩ := h.serves
    refine h.searched hsearch fun hreach => ?_
    rcases hreach.eq_or_eq_of_above hhost h.above with heq | heq
    · exact scene.left_ne_right heq.symm
    · exact scene.right_ne_host heq

end Session

end Understudy
