import Mathlib.Data.List.Nodup
import Mathlib.Data.List.Perm.Subperm
import Understudy.Session.State

/-!
Loaders that defer to loaders that defer to a host in the end. The way from such a loader to its
host passes every loader at most once, so it is no longer than there are loaders: asking along the
way never comes to the end of the depth that the session allows.
-/

namespace Understudy

theorem LoaderId.value_injective {a b : LoaderId} (h : a.value = b.value) : a = b := by
  cases a
  cases b
  cases h
  rfl

namespace Session

variable {s : Session}

/-- A host, or a selective loader that defers to a loader over a host. -/
inductive OverHost (s : Session) : LoaderId → Prop
  | host {id : LoaderId} {host : HostLoader} (here : s.loader? id = some (.host host)) :
    OverHost s id
  | selective {id : LoaderId} {loader : SelectiveLoader}
    (here : s.loader? id = some (.selective loader)) (below : OverHost s loader.deferred) :
    OverHost s id

/-- The loaders that are passed from a loader down to its host, both included. -/
inductive Way (s : Session) : LoaderId → List LoaderId → Prop
  | host {id : LoaderId} {host : HostLoader} (here : s.loader? id = some (.host host)) :
    Way s id [id]
  | selective {id : LoaderId} {loader : SelectiveLoader} {way : List LoaderId}
    (here : s.loader? id = some (.selective loader)) (below : Way s loader.deferred way) :
    Way s id (id :: way)

theorem OverHost.exists_way {id : LoaderId} (h : OverHost s id) : ∃ way, Way s id way := by
  induction h with
  | host here => exact ⟨_, .host here⟩
  | selective here _ ih =>
    obtain ⟨way, hway⟩ := ih
    exact ⟨_, .selective here hway⟩

/-- Where a loader defers to leaves no choice. -/
theorem Way.unique {id : LoaderId} {way other : List LoaderId} (h : Way s id way)
    (hother : Way s id other) : way = other := by
  induction h generalizing other with
  | host here =>
    cases hother with
    | host _ => rfl
    | selective there _ => rw [here] at there; cases there
  | selective here _ ih =>
    cases hother with
    | host there => rw [here] at there; cases there
    | selective there below =>
      rw [here] at there
      cases there
      rw [ih below]

/-- The way goes on from every loader that it passes. -/
theorem Way.exists_suffix {id passed : LoaderId} {way : List LoaderId} (h : Way s id way)
    (hpassed : passed ∈ way) : ∃ front back, way = front ++ back ∧ Way s passed back := by
  induction h with
  | host here =>
    obtain rfl := List.mem_singleton.mp hpassed
    exact ⟨[], _, rfl, .host here⟩
  | @selective id _ way here below ih =>
    rcases List.mem_cons.mp hpassed with rfl | hbelow
    · exact ⟨[], _, rfl, .selective here below⟩
    · obtain ⟨front, back, rfl, hback⟩ := ih hbelow
      exact ⟨id :: front, back, rfl, hback⟩

/-- A loader that were passed twice would have a way longer than itself. -/
theorem Way.nodup {id : LoaderId} {way : List LoaderId} (h : Way s id way) : way.Nodup := by
  induction h with
  | host _ => exact List.nodup_singleton _
  | selective here below ih =>
    refine List.nodup_cons.mpr ⟨fun hagain => ?_, ih⟩
    obtain ⟨front, back, rfl, hback⟩ := below.exists_suffix hagain
    have hlength := congrArg List.length (hback.unique (.selective here below))
    simp only [List.length_cons, List.length_append] at hlength
    omega

theorem value_lt_of_loader? {id : LoaderId} {loader : Loader} (h : s.loader? id = some loader) :
    id.value < s.loaders.length :=
  (List.getElem?_eq_some_iff.mp h).1

theorem exists_length_eq_add_one {id : LoaderId} {loader : Loader}
    (h : s.loader? id = some loader) : ∃ depth, s.loaders.length = depth + 1 :=
  Nat.exists_eq_add_one.mpr (Nat.zero_lt_of_lt (value_lt_of_loader? h))

theorem Way.value_lt {id passed : LoaderId} {way : List LoaderId} (h : Way s id way)
    (hpassed : passed ∈ way) : passed.value < s.loaders.length := by
  obtain ⟨_, _, -, hway⟩ := h.exists_suffix hpassed
  cases hway with
  | host here => exact value_lt_of_loader? here
  | selective here _ => exact value_lt_of_loader? here

/-- There are as many numbers for loaders as there are loaders. -/
theorem length_le_of_nodup {ids : List LoaderId} (hnodup : ids.Nodup)
    (hvalues : ∀ id ∈ ids, id.value < s.loaders.length) : ids.length ≤ s.loaders.length := by
  have hvalues' : ids.map (·.value) ⊆ List.range s.loaders.length := by
    intro value hvalue
    obtain ⟨id, hid, rfl⟩ := List.mem_map.mp hvalue
    exact List.mem_range.mpr (hvalues id hid)
  have hnodup' : (ids.map (·.value)).Nodup := hnodup.map fun _ _ => LoaderId.value_injective
  simpa using (List.subperm_of_subset hnodup' hvalues').length_le

theorem Way.length_le {id : LoaderId} {way : List LoaderId} (h : Way s id way) :
    way.length ≤ s.loaders.length :=
  length_le_of_nodup h.nodup fun _ hpassed => h.value_lt hpassed

/-! ### Enough depth -/

/-- What is asked of loaders, where the depth only tells how far down the ways it is carried: hosts
answer alike at all depths, and selective loaders where those do that they defer to. -/
structure AsksDown {α : Type} (s : Session) (ask : Nat → LoaderId → α) : Prop where
  host : ∀ {id host}, s.loader? id = some (.host host) →
    ∀ depth other, ask (depth + 1) id = ask (other + 1) id
  selective : ∀ {id loader}, s.loader? id = some (.selective loader) →
    ∀ depth other, ask depth loader.deferred = ask other loader.deferred →
      ask (depth + 1) id = ask (other + 1) id

variable {α : Type} {ask : Nat → LoaderId → α}

/-- The answer is the same at every depth that the way has room in. -/
theorem AsksDown.eq_of_length_le (hask : AsksDown s ask) {id : LoaderId} {way : List LoaderId}
    (h : Way s id way) {depth other : Nat} (hdepth : way.length ≤ depth)
    (hother : way.length ≤ other) : ask depth id = ask other id := by
  induction h generalizing depth other with
  | host here =>
    match depth, other, hdepth, hother with
    | depth + 1, other + 1, _, _ => exact hask.host here depth other
  | selective here _ ih =>
    match depth, other, hdepth, hother with
    | depth + 1, other + 1, hdepth, hother =>
      exact hask.selective here depth other
        (ih (Nat.le_of_succ_le_succ hdepth) (Nat.le_of_succ_le_succ hother))

/-- What a loader asks of the one that it defers to is what the session asks of that one: the way
from there leaves room for the loader itself. -/
theorem AsksDown.ask_deferred_eq (hask : AsksDown s ask) {id : LoaderId} {loader : SelectiveLoader}
    (here : s.loader? id = some (.selective loader)) (below : OverHost s loader.deferred)
    {depth : Nat} (hdepth : s.loaders.length = depth + 1) :
    ask depth loader.deferred = ask s.loaders.length loader.deferred := by
  obtain ⟨way, hway⟩ := below.exists_way
  have hlength := (Way.selective here hway).length_le
  rw [hdepth, List.length_cons] at hlength
  exact hask.eq_of_length_le hway (Nat.le_of_succ_le_succ hlength) hway.length_le

end Session

end Understudy
