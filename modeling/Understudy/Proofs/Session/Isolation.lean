import Mathlib.Data.List.Infix
import Understudy.Proofs.Session.Matching

/-!
Siblings: two selective loaders above one host that have no entry in common. Whatever is done with
one of them makes no difference to the other one, though the host keeps what either of them had it
load: it answers the same, counts the same, defines the same names and has the same class path. Only
the identities of classes and entries come out otherwise, by one renaming of each. Main statement:
`siblings_isolated`, about every run of acts on the two, and the same run with all acts on the one
left out, which moreover may have been anything else to begin with.
-/

namespace Understudy

/-- The same class under another identity. -/
def DefinedClass.rename (f : ClassHandle → ClassHandle) (c : DefinedClass) : DefinedClass :=
  { c with handle := f c.handle }

/-- The same answer where classes and entries have other identities. -/
def Act.Answer.rename (f : ClassHandle → ClassHandle) (g : EntryId → EntryId) :
    Act.Answer → Act.Answer
  | done => .done
  | told answer => .told answer
  | loaded answer => .loaded (answer.map (DefinedClass.rename f))
  | made answer => .made answer
  | location answer => .location (answer.map (Resource.rename g))
  | locations answer => .locations (answer.map (Resource.rename g))

/-- Answers that are the same up to the identities of classes are the same up to a renaming that
takes the one class to the other one. -/
theorem Act.Answer.Like.eq_rename {f : ClassHandle → ClassHandle} {g : EntryId → EntryId}
    {x y : Act.Answer} (hlike : Like g x y)
    (hf : ∀ c d, x = .loaded (.ok c) → y = .loaded (.ok d) → f d.handle = c.handle) :
    x = y.rename f g := by
  cases hlike with
  | loaded same =>
    rcases DefinedClass.cases_of_map_content_eq same with ⟨e, rfl, rfl⟩ | ⟨c, d, rfl, rfl, heq⟩
    · rfl
    · obtain ⟨hloader, hdomain, hfile⟩ : c.loader = d.loader ∧ c.domain = d.domain ∧
        c.file = d.file := by simpa [DefinedClass.content] using heq
      simp only [rename, Except.map, DefinedClass.rename, hf c d rfl rfl, ← hloader, ← hdomain,
        ← hfile]
  | _ => rfl

namespace Session

/-- The acts on one loader, or what came of them. -/
def only {α : Type} (id : LoaderId) (items : List (LoaderId × α)) : List (LoaderId × α) :=
  items.filter (·.1 == id)

/-- Two selective loaders that ask nobody but one host. -/
structure Siblings (a b h : LoaderId) (s : Session) : Prop where
  ne : a ≠ b
  host : ∃ host, s.loader? h = some (.host host)
  left : Above s h a
  right : Above s h b
  held : ∀ entry ∈ s.entriesOf b ++ s.entriesOf h, entry.value < s.holdings.length

/-- Two sessions that differ at most in what a loader is, and in what is on its class path and not
on that of a host. -/
structure DiffersAt (a h : LoaderId) (s t : Session) : Prop where
  files : t.files = s.files
  loaders : ∀ id, id ≠ a → t.loader? id = s.loader? id
  count : t.holdings.length = s.holdings.length
  holdings : ∀ entry, (entry ∈ s.entriesOf a → entry ∈ s.entriesOf h) →
    t.entryAt? entry = s.entryAt? entry

/-- All along a run, two loaders have no entry in common, and what lies on the class path of a host
stays as it is. -/
def StayApart (a b h : LoaderId) (ops : List (LoaderId × Act)) (s : Session) : Prop :=
  ∀ before, before <+: ops →
    (∀ entry ∈ (use before s).2.entriesOf a, entry ∉ (use before s).2.entriesOf b) ∧
      ∀ entry ∈ s.entriesOf h, (use before s).2.entryAt? entry = s.entryAt? entry

variable {a b h : LoaderId} {s t : Session}

theorem Siblings.left_ne_host (hsiblings : Siblings a b h s) : a ≠ h := by
  rintro rfl
  obtain ⟨_, here⟩ := hsiblings.host
  obtain ⟨_, there, -⟩ := hsiblings.left
  rw [here] at there
  cases there

theorem Siblings.right_ne_host (hsiblings : Siblings a b h s) : b ≠ h := by
  rintro rfl
  obtain ⟨_, here⟩ := hsiblings.host
  obtain ⟨_, there, -⟩ := hsiblings.right
  rw [here] at there
  cases there

/-- What there is before siblings are used. -/
def Siblings.scene (hsiblings : Siblings a b h s) : Scene where
  left := a
  right := b
  host := h
  known := s.holdings.length
  shared := s.entriesOf h
  view name := (load h name s).1.map DefinedClass.content
  left_ne_right := hsiblings.ne
  left_ne_host := hsiblings.left_ne_host
  right_ne_host := hsiblings.right_ne_host
  shared_known entry hmem := hsiblings.held entry (List.mem_append_right _ hmem)

theorem Siblings.mirrors (hsiblings : Siblings a b h s) (hdiffers : DiffersAt a h s t) :
    Mirrors hsiblings.scene (Equiv.refl EntryId) s t := by
  obtain ⟨⟨entries, table⟩, here⟩ := hsiblings.host
  have hentries : s.entriesOf h = entries := by
    rw [entriesOf, here]
    rfl
  have hview : Serves h (s.entriesOf h) hsiblings.scene.view s := by
    refine ⟨table, by rw [here, hentries], fun name => ?_⟩
    rw [hentries]
    exact (content_load_of_host here).symm
  have hclassPath : t.classPathOf (s.entriesOf h) = s.classPathOf (s.entriesOf h) :=
    classPathOf_congr fun entry hmem => hdiffers.holdings entry fun _ => hmem
  have hsame := hdiffers.loaders h hsiblings.left_ne_host.symm
  refine ⟨hdiffers.files, hview, hview.of_same hsame hclassPath hdiffers.files, hsiblings.left,
    ?_, Nat.le_of_eq hdiffers.count.symm, fun _ _ => rfl, fun entry hlt => ?_, ?_⟩
  · obtain ⟨loader, there, honly⟩ := hsiblings.right
    refine ⟨loader, loader, there, (hdiffers.loaders b hsiblings.ne.symm).trans there, ?_⟩
    refine ⟨rfl, rfl, rfl, rfl, rfl, rfl, rfl, fun _ => rfl, (List.map_id _).symm, ?_,
      honly.deferred, honly.interceptors⟩
    intro entry hmem
    rw [hdiffers.count]
    refine hsiblings.held entry (List.mem_append_left _ ?_)
    rw [entriesOf, there]
    exact hmem
  · rwa [← hdiffers.count]
  · intro entry _ hleft
    have hself : Entry.rename (Equiv.refl EntryId) = id := rfl
    rw [hself, Option.map_id]
    exact (hdiffers.holdings entry hleft).symm

/-! ### Runs -/

/-- Acts on the left loader in the first session can be left out in the second one. By induction on
the run. -/
theorem Mirrors.use {scene : Scene} {ρ : Equiv.Perm EntryId} (hmirrors : Mirrors scene ρ s t)
    (ops : List (LoaderId × Act)) (hwho : ∀ op ∈ ops, op.1 = scene.left ∨ op.1 = scene.right)
    (hknown : ∀ op ∈ ops, ∀ entry, op.2 = .append (.known entry) → entry.value < scene.known)
    (hapart : ∀ before, before <+: ops → Apart scene (use before s).2 ∧
      ∀ entry ∈ scene.shared, (use before s).2.entryAt? entry = s.entryAt? entry) :
    ∃ σ, SameBelow t.holdings.length ρ σ ∧
      Mirrors scene σ (use ops s).2 (use (only scene.right ops) t).2 ∧
        List.Forall₂ (fun x y => x.1 = y.1 ∧ Act.Answer.Like σ x.2 y.2)
          (only scene.right (use ops s).1) (use (only scene.right ops) t).1 := by
  induction ops generalizing s t ρ with
  | nil => exact ⟨ρ, fun _ _ => rfl, hmirrors, .nil⟩
  | cons op rest ih =>
    obtain ⟨id, act⟩ := op
    obtain ⟨hnow, -⟩ := hapart [] List.nil_prefix
    have hfirst := (hapart [(id, act)] (List.cons_prefix_cons.mpr ⟨rfl, List.nil_prefix⟩)).2
    have hlater : ∀ before, before <+: rest →
        Apart scene (Session.use before (act.perform id s).2).2 ∧ ∀ entry ∈ scene.shared,
          (Session.use before (act.perform id s).2).2.entryAt? entry =
            (act.perform id s).2.entryAt? entry := by
      intro before hprefix
      obtain ⟨happ, hsame⟩ := hapart ((id, act) :: before)
        (List.cons_prefix_cons.mpr ⟨rfl, hprefix⟩)
      exact ⟨happ, fun entry hmem => (hsame entry hmem).trans (hfirst entry hmem).symm⟩
    have hwho' := fun op hop => hwho op (List.mem_cons_of_mem _ hop)
    have hknown' := fun op hop => hknown op (List.mem_cons_of_mem _ hop)
    rcases hwho _ List.mem_cons_self with hid | hid <;> obtain rfl : id = _ := hid
    · -- the second session stays where it is
      have hskip : ∀ {α : Type} (x : α) items,
          only scene.right ((scene.left, x) :: items) = only scene.right items := fun x items => by
        simp [only, scene.left_ne_right]
      obtain ⟨σ, hσ, hend, hanswers⟩ := ih (hmirrors.left act hfirst) hwho' hknown' hlater
      exact ⟨σ, hσ, by rw [hskip]; exact hend, by rw [hskip, Session.use, hskip]; exact hanswers⟩
    · have hkeep : ∀ {α : Type} (x : α) items,
          only scene.right ((scene.right, x) :: items) =
            (scene.right, x) :: only scene.right items := fun x items => by simp [only]
      obtain ⟨σ, hσ, hafter, hanswer⟩ := hmirrors.right hnow act
        (fun entry heq => hknown _ List.mem_cons_self entry heq) hfirst
      obtain ⟨τ, hτ, hend, hanswers⟩ := ih hafter hwho' hknown' hlater
      have hext : SameBelow t.holdings.length ρ τ := fun entry hlt =>
        (hτ entry (Nat.lt_of_lt_of_le hlt (count_le_perform act _ t))).trans (hσ entry hlt)
      refine ⟨τ, hext, by rw [hkeep]; exact hend, ?_⟩
      rw [hkeep, Session.use, Session.use, hkeep]
      exact .cons ⟨rfl, hanswer τ hext⟩ hanswers

/-! ### Whose classes are answered -/

/-- A loader stays above its host, whatever is done with any loader but the host. -/
theorem above_perform {id : LoaderId} (hhost : ∃ host, s.loader? h = some (.host host))
    (habove : Above s h b) (hid : id ≠ h) (act : Act) :
    (∃ host, (act.perform id s).2.loader? h = some (.host host)) ∧
      Above (act.perform id s).2 h b := by
  obtain ⟨host, here⟩ := hhost
  rcases ownChange_or_searches act id s with hown | ⟨_, _, hsearch⟩
  · refine ⟨⟨host, (hown.others h hid.symm).trans here⟩, habove.of_link ?_⟩
    by_cases hb : b = id
    · subst hb
      exact hown.link
    · rw [hown.others b hb]
  · refine ⟨?_, habove.of_link (hsearch.link?_eq b)⟩
    have hsetup := hsearch.map_setup_eq h
    rcases hthere : (act.perform id s).2.loader? h with _ | ⟨after | _ | _⟩ <;>
      simp [here, hthere, Loader.setup] at hsetup
    exact ⟨after, rfl⟩

/-- Nobody is answered a class of a sibling. By induction on the run. -/
theorem loader_of_mem_use (hs : Consistent s) (hhost : ∃ host, s.loader? h = some (.host host))
    (habove : Above s h b) {ops : List (LoaderId × Act)} (hwho : ∀ op ∈ ops, op.1 ≠ h)
    {c : DefinedClass} (hmem : (b, .loaded (.ok c)) ∈ (use ops s).1) :
    c.loader = b ∨ c.loader = h := by
  induction ops generalizing s with
  | nil => cases hmem
  | cons op rest ih =>
    rcases List.mem_cons.mp hmem with hfirst | hlater
    · obtain ⟨rfl, hanswer⟩ := Prod.mk.inj hfirst
      obtain ⟨host, here⟩ := hhost
      exact loader_of_perform hs.owned here habove hanswer.symm
    · have hnot := hwho op List.mem_cons_self
      obtain ⟨hhost', habove'⟩ := above_perform hhost habove hnot op.2
      exact ih (hs.grows (grows_act op.2 op.1 s)) hhost' habove'
        (fun op' hop => hwho op' (List.mem_cons_of_mem _ hop)) hlater

/-! ### Identities of classes -/

/-- A relation of identities that leaves no choice on either side extends to a renaming. -/
theorem exists_injective_of_unique {R : ClassHandle → ClassHandle → Prop} {bound : Nat}
    (hbound : ∀ k m, R k m → m.value < bound) (hright : ∀ k m m', R k m → R k m' → m = m')
    (hleft : ∀ k k' m, R k m → R k' m → k = k') :
    ∃ f : ClassHandle → ClassHandle, Function.Injective f ∧ ∀ k m, R k m → f k = m := by
  classical
  have hpick : ∀ k, ∃ m : ClassHandle,
      (∀ m', R k m' → m = m') ∧ (R k m ∨ m = ⟨bound + k.value⟩ ∧ ∀ m', ¬ R k m') := by
    intro k
    by_cases hk : ∃ m, R k m
    · obtain ⟨m, hm⟩ := hk
      exact ⟨m, fun m' hm' => hright k m m' hm hm', .inl hm⟩
    · have hnone : ∀ m', ¬ R k m' := fun m' hm' => hk ⟨m', hm'⟩
      exact ⟨⟨bound + k.value⟩, fun m' hm' => absurd hm' (hnone m'), .inr ⟨rfl, hnone⟩⟩
  choose f hf hcase using hpick
  refine ⟨f, fun k k' heq => ?_, hf⟩
  rcases hcase k with hk | ⟨hk, -⟩ <;> rcases hcase k' with hk' | ⟨hk', -⟩
  · exact hleft k k' (f k) hk (by rw [heq]; exact hk')
  · have hlt := hbound k (f k) hk
    rw [heq, hk'] at hlt
    exact absurd hlt (by simp)
  · have hlt := hbound k' (f k') hk'
    rw [← heq, hk] at hlt
    exact absurd hlt (by simp)
  · rw [hk, hk'] at heq
    have hvalue : bound + k.value = bound + k'.value := congrArg ClassHandle.value heq
    cases k
    cases k'
    simp_all

/-- Two classes were answered at one place of two runs. -/
def Together (answers answers' : List (LoaderId × Act.Answer)) (c d : DefinedClass) : Prop :=
  ∃ id id', ((id, .loaded (.ok c)), (id', .loaded (.ok d))) ∈ answers.zip answers'

section
variable {g : EntryId → EntryId} {ops ops' : List (LoaderId × Act)} {c c' d d' : DefinedClass}

theorem Together.mem_use (htogether : Together (only b (use ops s).1) (use ops' t).1 c d) :
    (∃ id, (id, .loaded (.ok c)) ∈ (use ops s).1) ∧
      ∃ id, (id, .loaded (.ok d)) ∈ (use ops' t).1 := by
  obtain ⟨id, id', hmem⟩ := htogether
  obtain ⟨hc, hd⟩ := List.of_mem_zip hmem
  exact ⟨⟨id, (List.mem_filter.mp hc).1⟩, id', hd⟩

theorem Together.content_eq {answers answers' : List (LoaderId × Act.Answer)}
    (hlike : List.Forall₂ (fun x y => x.1 = y.1 ∧ Act.Answer.Like g x.2 y.2) answers answers')
    (htogether : Together answers answers' c d) : c.content = d.content := by
  obtain ⟨id, id', hmem⟩ := htogether
  cases ((List.forall₂_iff_zip.mp hlike).2 hmem).2 with
  | loaded same => exact Except.ok.inj same

/-- Two classes of one run have one identity exactly if the classes of the other run do that were
answered in their places. -/
theorem Together.handle_eq_iff (hs : Consistent s) (ht : Consistent t)
    (hlike : List.Forall₂ (fun x y => x.1 = y.1 ∧ Act.Answer.Like g x.2 y.2)
      (only b (use ops s).1) (use ops' t).1)
    (htogether : Together (only b (use ops s).1) (use ops' t).1 c d)
    (htogether' : Together (only b (use ops s).1) (use ops' t).1 c' d') :
    c.handle = c'.handle ↔ d.handle = d'.handle := by
  obtain ⟨⟨_, hc⟩, _, hd⟩ := htogether.mem_use
  obtain ⟨⟨_, hc'⟩, _, hd'⟩ := htogether'.mem_use
  have hcontent := htogether.content_eq hlike
  have hcontent' := htogether'.content_eq hlike
  constructor
  · intro hhandle
    obtain rfl := (eq_of_mem_use hs ops hc hc').2 hhandle
    rw [(eq_of_mem_use ht ops' hd hd').1 (hcontent.symm.trans hcontent')]
  · intro hhandle
    obtain rfl := (eq_of_mem_use ht ops' hd hd').2 hhandle
    rw [(eq_of_mem_use hs ops hc hc').1 (hcontent.trans hcontent'.symm)]

/-- Two runs that answer one loader the same up to the identities of classes answer it the same up
to one renaming of them. -/
theorem exists_renaming_of_like (hs : Consistent s) (ht : Consistent t)
    (hlike : List.Forall₂ (fun x y => x.1 = y.1 ∧ Act.Answer.Like g x.2 y.2)
      (only b (use ops s).1) (use ops' t).1) :
    ∃ f : ClassHandle → ClassHandle, Function.Injective f ∧
      only b (use ops s).1 =
        (use ops' t).1.map fun answer => (answer.1, answer.2.rename f g) := by
  let R : ClassHandle → ClassHandle → Prop := fun k m => ∃ c d,
    Together (only b (use ops s).1) (use ops' t).1 c d ∧ d.handle = k ∧ c.handle = m
  have hbound : ∀ k m, R k m → m.value < (use ops s).2.nextHandle := by
    rintro k m ⟨c, d, htogether, -, rfl⟩
    obtain ⟨⟨_, hmem⟩, -⟩ := htogether.mem_use
    have hfind := find?_of_mem_use hs ops hmem
    exact (hs.grows (grows_use ops s)).issued _ _ (Keyed.mem_of_find?_eq_some hfind)
  have hright : ∀ k m m', R k m → R k m' → m = m' := by
    rintro k m m' ⟨c, d, htogether, rfl, rfl⟩ ⟨c', d', htogether', hd, rfl⟩
    exact (htogether.handle_eq_iff hs ht hlike htogether').mpr hd.symm
  have hleft : ∀ k k' m, R k m → R k' m → k = k' := by
    rintro k k' m ⟨c, d, htogether, rfl, rfl⟩ ⟨c', d', htogether', rfl, hc⟩
    exact (htogether.handle_eq_iff hs ht hlike htogether').mp hc.symm
  obtain ⟨f, hinjective, hf⟩ := exists_injective_of_unique hbound hright hleft
  refine ⟨f, hinjective, ?_⟩
  have heq : List.Forall₂ (fun x y => x = (y.1, y.2.rename f g))
      (only b (use ops s).1) (use ops' t).1 := by
    obtain ⟨hlength, hpairs⟩ := List.forall₂_iff_zip.mp hlike
    refine List.forall₂_iff_zip.mpr ⟨hlength, ?_⟩
    rintro ⟨id, x⟩ ⟨id', y⟩ hmem
    obtain ⟨hid, hsame⟩ := hpairs hmem
    obtain rfl : id = id' := hid
    refine Prod.ext rfl (hsame.eq_rename fun c d hx hy => ?_)
    exact hf d.handle c.handle ⟨c, d, ⟨id, id, by rw [← hx, ← hy]; exact hmem⟩, rfl, rfl⟩
  exact List.forall₂_eq_eq_eq ▸ List.forall₂_map_right_iff.mpr heq

end

/-! ### Isolation -/

/-- A sibling cannot tell a run of acts on the two of them from the same run without the acts on the
other one. -/
theorem siblings_isolated (hsiblings : Siblings a b h s) (hdiffers : DiffersAt a h s t)
    (hs : Consistent s) (ht : Consistent t) {ops : List (LoaderId × Act)}
    (hwho : ∀ op ∈ ops, op.1 = a ∨ op.1 = b)
    (hknown : ∀ op ∈ ops, ∀ entry, op.2 = .append (.known entry) →
      entry.value < s.holdings.length)
    (hapart : StayApart a b h ops s) :
    let both := use ops s
    let alone := use (only b ops) t
    ∃ (handles : ClassHandle → ClassHandle) (entries : EntryId → EntryId),
      Function.Injective handles ∧ Function.Injective entries ∧
      (∀ entry : EntryId, entry.value < s.holdings.length → entries entry = entry) ∧
      only b both.1 = alone.1.map (fun answer => (answer.1, answer.2.rename handles entries)) ∧
      (both.2.loader? b).map (·.stats) = (alone.2.loader? b).map (·.stats) ∧
      (∀ name, both.2.isDefined b name = alone.2.isDefined b name) ∧
      both.2.classPathOf (both.2.entriesOf b) =
        (alone.2.classPathOf (alone.2.entriesOf b)).rename entries ∧
      ∀ c, (b, .loaded (.ok c)) ∈ both.1 → c.loader = b ∨ c.loader = h := by
  intro both alone
  obtain ⟨σ, -, hend, hlike⟩ := (hsiblings.mirrors hdiffers).use ops hwho hknown hapart
  obtain ⟨handles, hinjective, hanswers⟩ := exists_renaming_of_like hs ht hlike
  have hlast := (hapart ops (List.prefix_refl ops)).1
  refine ⟨handles, σ, hinjective, σ.injective, hend.fixed, hanswers, hend.stats, hend.isDefined,
    hend.classPathOf_right hlast, fun c hmem => ?_⟩
  refine loader_of_mem_use hs hsiblings.host hsiblings.right (fun op hop => ?_) hmem
  rcases hwho op hop with heq | heq <;> rw [heq]
  · exact hsiblings.left_ne_host
  · exact hsiblings.right_ne_host

/-- A loader that takes the classes `own.*` over and asks a host for all others. -/
def neighbour (entries : List EntryId) : SelectiveLoader where
  policy := ⟨[], [], [Pattern.ofString "own.*"], []⟩
  suppressStatic := []
  entries := entries
  deferred := ⟨1⟩
  interceptors := [.route ⟨["lib."], ⟨1⟩⟩]
  domain := {}

/-- Two of them above a host that has the class `lib.L`. The first one has an entry of its own. -/
def neighbours (holding : Holding) : Session :=
  { start .empty with
    holdings := [holding, .single "lib.L" (Stub.encode { name := "lib.L" })]
    loaders := [.host { entries := [] }, .host { entries := [⟨1⟩] },
      .selective (neighbour [⟨0⟩]), .selective (neighbour [])] }

/-- The first one loads a class of its own and one of the host. The second one asks for both,
defines another class, and looks for its bytes. -/
def visiting : List (LoaderId × Act) :=
  [(⟨2⟩, .load "own.A"), (⟨2⟩, .append (.fresh (.emptyMemory "late"))), (⟨3⟩, .load "own.A"),
    (⟨2⟩, .load "lib.L"), (⟨3⟩, .load "lib.L"),
    (⟨3⟩, .define (.whole "own.B" (Stub.encode { name := "own.B" }) {})),
    (⟨3⟩, .resources "own/B.class")]

/-- The number of a class that was answered. -/
def numberOf? : LoaderId × Act.Answer → Option Nat
  | (_, .loaded (.ok c)) => some c.handle.value
  | _ => none

/-- The second one does not find the class of the first one, and its answers are numbered otherwise
than if it were alone. -/
theorem siblings_isolated_visiting :
    let both := use visiting (neighbours (.single "own.A" (Stub.encode { name := "own.A" })))
    let alone := use (only ⟨3⟩ visiting) (neighbours (.emptyMemory "none"))
    (only ⟨3⟩ both.1).map numberOf? = [none, some 1, some 2, none] ∧
      alone.1.map numberOf? = [none, some 0, some 1, none] ∧
      ∃ handles entries, Function.Injective handles ∧ Function.Injective entries ∧
        only ⟨3⟩ both.1 =
          alone.1.map (fun answer => (answer.1, answer.2.rename handles entries)) := by
  have hempty : ∀ holding id, (neighbours holding).tableOf id = [] := by
    rintro holding ⟨_ | _ | _ | _ | n⟩ <;> rfl
  have hasks : ∀ entries, (neighbour entries).AsksOnly ⟨1⟩ := fun entries =>
    ⟨rfl, fun interceptor hmem => ⟨_, List.mem_singleton.mp hmem⟩⟩
  have hsiblings : ∀ holding, Siblings ⟨2⟩ ⟨3⟩ ⟨1⟩ (neighbours holding) := by
    refine fun holding => ⟨by decide, ⟨_, rfl⟩, ⟨_, rfl, hasks _⟩, ⟨_, rfl, hasks _⟩, ?_⟩
    change ∀ entry ∈ ([⟨1⟩] : List EntryId), entry.value < 2
    decide
  have hdiffers : ∀ holding other,
      DiffersAt ⟨2⟩ ⟨1⟩ (neighbours holding) (neighbours other) := by
    refine fun holding other => ⟨rfl, fun _ _ => rfl, rfl, ?_⟩
    rintro ⟨_ | n⟩ hentry
    · have hshared : (⟨0⟩ : EntryId) ∈ ([⟨1⟩] : List EntryId) :=
        hentry (List.mem_singleton_self (⟨0⟩ : EntryId))
      exact absurd hshared (by decide)
    · rfl
  have hwho : ∀ op ∈ visiting, op.1 = ⟨2⟩ ∨ op.1 = ⟨3⟩ := by decide
  have hknown : ∀ op ∈ visiting, ∀ entry, op.2 = .append (.known entry) → entry.value < 2 := by
    simp [visiting]
  have hapart : StayApart ⟨2⟩ ⟨3⟩ ⟨1⟩ visiting
      (neighbours (.single "own.A" (Stub.encode { name := "own.A" }))) := by
    intro before hbefore
    revert before
    simp only [← List.mem_inits]
    decide +kernel
  obtain ⟨handles, entries, hhandles, hentries, -, hanswers, -⟩ :=
    siblings_isolated (hsiblings _) (hdiffers _ (.emptyMemory "none"))
      (consistent_of_empty (hempty _)) (consistent_of_empty (hempty _)) hwho hknown hapart
  exact ⟨by decide +kernel, by decide +kernel, handles, entries, hhandles, hentries, hanswers⟩

end Session

end Understudy
