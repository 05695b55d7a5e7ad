import Mathlib.Data.List.Basic
import Understudy.Proofs.ClassPath.Merge

/-!
How several sources are read as one, asking by asking. A source is asked as long as it is the first
one that has not come to its end, and only while there is need of another location. So the sources
tell what they hold one after the other, each location where it comes first, and further calls tell
nothing.

While a source is asked, just those before it have answered nothing: it is not asked before all of
them have come to their ends, nor again after it has come to its own. Whenever one is asked, fewer
locations have been answered so far than calls are made; if there are fewer than calls in all, every
source has come to its end. Main statement: `calls_on_demand`.
-/

namespace Understudy.Merge

/-- One asking: which source is asked, by its number, and what it answers. -/
structure Ask where
  source : Nat
  answer : Option Resource
  deriving DecidableEq, Repr

/-- The locations that sources answered. -/
def told (asks : List Ask) : List Resource := asks.filterMap (·.answer)

/-- One asking of the first source that has not come to its end. It answers a location that is new,
or one that is known, or nothing, and then it has come to its end. -/
inductive Asks : Merge → Ask → Merge → Prop
  | fresh {spent : List Nat} {item : Resource} {rest : List Resource} {n : Nat}
    {others : List Source} {seen : List Resource.Key} (new : item.key ∉ seen) :
    Asks ⟨spent, ⟨item :: rest, n⟩ :: others, seen⟩ ⟨spent.length, some item⟩
      ⟨spent, ⟨rest, n + 1⟩ :: others, item.key :: seen⟩
  | known {spent : List Nat} {item : Resource} {rest : List Resource} {n : Nat}
    {others : List Source} {seen : List Resource.Key} (old : item.key ∈ seen) :
    Asks ⟨spent, ⟨item :: rest, n⟩ :: others, seen⟩ ⟨spent.length, some item⟩
      ⟨spent, ⟨rest, n + 1⟩ :: others, seen⟩
  | ended {spent : List Nat} {n : Nat} {others : List Source} {seen : List Resource.Key} :
    Asks ⟨spent, ⟨[], n⟩ :: others, seen⟩ ⟨spent.length, none⟩ ⟨spent ++ [n + 1], others, seen⟩

/-- Askings one after the other. -/
inductive Reads : Merge → List Ask → Merge → Prop
  | done {m : Merge} : Reads m [] m
  | step {m mid after : Merge} {ask : Ask} {asks : List Ask} (first : Asks m ask mid)
    (behind : Reads mid asks after) : Reads m (ask :: asks) after

/-- What so many calls for the next location answer, and what is left after them. -/
def calls : Nat → Merge → List (Option Resource) × Merge
  | 0, m => ([], m)
  | k + 1, m => (m.next.1 :: (calls k m.next.2).1, (calls k m.next.2).2)

variable {m mid after : Merge} {ask : Ask} {asks more : List Ask}

theorem told_append (asks more : List Ask) : told (asks ++ more) = told asks ++ told more :=
  List.filterMap_append

theorem Reads.append (h : Reads m asks mid) (k : Reads mid more after) :
    Reads m (asks ++ more) after := by
  induction h with
  | done => exact k
  | step first _ ih => exact .step first (ih k)

theorem Reads.exists_of_append (h : Reads m (asks ++ more) after) :
    ∃ mid, Reads m asks mid ∧ Reads mid more after := by
  induction asks generalizing m with
  | nil => exact ⟨m, .done, h⟩
  | cons ask asks ih =>
    cases h with
    | step first behind =>
      obtain ⟨mid, hasks, hmore⟩ := ih behind
      exact ⟨mid, .step first hasks, hmore⟩

/-! ### What askings leave behind -/

/-- The source that is asked is the one behind those that have come to their end. -/
theorem Asks.source_eq (h : Asks m ask mid) : ask.source = m.spent.length := by
  cases h <;> rfl

theorem Reads.length_spent_le (h : Reads m asks after) : m.spent.length ≤ after.spent.length := by
  induction h with
  | done => exact Nat.le_refl _
  | step first _ ih =>
    cases first with
    | fresh _ => exact ih
    | known _ => exact ih
    | ended =>
      rw [List.length_append, List.length_singleton] at ih
      exact Nat.le_of_succ_le ih

/-- The sources that answered nothing are those that have come to their end meanwhile. -/
theorem Reads.mem_iff (h : Reads m asks after) (i : Nat) :
    ⟨i, none⟩ ∈ asks ↔ m.spent.length ≤ i ∧ i < after.spent.length := by
  induction h with
  | done => simp
  | step first behind ih =>
    have hle := behind.length_spent_le
    rw [List.mem_cons, ih]
    cases first with
    | fresh _ => simp
    | known _ => simp
    | ended =>
      simp only [Ask.mk.injEq, and_true, List.length_append, List.length_singleton] at hle ⊢
      omega

theorem asked_ofSources (sources : List (List Resource)) :
    (ofSources sources).asked = List.replicate sources.length 0 := by
  simp [asked, ofSources, Function.comp_def]

/-- No source is lost. -/
theorem Reads.length_asked (h : Reads m asks after) : after.asked.length = m.asked.length := by
  induction h with
  | done => rfl
  | step first _ ih =>
    rw [ih]
    cases first <;> simp [asked]

/-- An asking counts for the source that is asked. -/
theorem Asks.getElem?_asked (h : Asks m ask mid) (i : Nat) :
    mid.asked[i]? = m.asked[i]?.map (· + if ask.source = i then 1 else 0) := by
  have hcount : ∀ (spent : List Nat) (n : Nat) (behind : List Nat),
      (spent ++ (n + 1) :: behind)[i]? =
        (spent ++ n :: behind)[i]?.map (· + if spent.length = i then 1 else 0) := by
    intro spent
    induction spent generalizing i with
    | nil => cases i <;> simp
    | cons _ spent ih =>
      cases i with
      | zero => simp
      | succ i => simpa using ih i
  cases h with
  | fresh _ => exact hcount _ _ _
  | known _ => exact hcount _ _ _
  | ended =>
    simp only [asked, List.append_assoc]
    exact hcount _ _ _

theorem Reads.getElem?_asked (h : Reads m asks after) (i : Nat) :
    after.asked[i]? = m.asked[i]?.map (· + asks.countP (·.source == i)) := by
  induction h with
  | done => simp
  | step first _ ih =>
    rw [ih, first.getElem?_asked, Option.map_map, List.countP_cons]
    congr 1
    funext n
    simp only [Function.comp_apply, beq_iff_eq]
    omega

/-! ### The askings of one call -/

/-- Locations that are known are passed over. -/
theorem unseen_append_of_known {seen : List Resource.Key} {items : List Resource}
    (h : ∀ item ∈ items, item.key ∈ seen) (behind : List Resource) :
    unseen seen (items ++ behind) = unseen seen behind := by
  induction items with
  | nil => rfl
  | cons item items ih =>
    rw [List.forall_mem_cons] at h
    rw [List.cons_append, unseen_cons_of_mem h.1, ih h.2]

/-- A source is asked until it answers a location that is new, or comes to its end. -/
theorem pull_reads (spent : List Nat) (others : List Source) (seen : List Resource.Key)
    (items : List Resource) (n : Nat) :
    ∃ idle, (∀ item ∈ told idle, item.key ∈ seen) ∧
      (∀ n', pull seen items n = (none, n') →
        Reads ⟨spent, ⟨items, n⟩ :: others, seen⟩ idle ⟨spent ++ [n'], others, seen⟩) ∧
      ∀ item rest n', pull seen items n = (some (item, rest), n') → item.key ∉ seen ∧
        Reads ⟨spent, ⟨items, n⟩ :: others, seen⟩ (idle ++ [⟨spent.length, some item⟩])
          ⟨spent, ⟨rest, n'⟩ :: others, item.key :: seen⟩ := by
  induction items generalizing n with
  | nil =>
    refine ⟨[⟨spent.length, none⟩], by simp [told], fun n' h => ?_, fun found rest n' h => ?_⟩
    · cases h
      exact .step .ended .done
    · cases h
  | cons item items ih =>
    by_cases hitem : item.key ∈ seen
    · have hpull : pull seen (item :: items) n = pull seen items (n + 1) := by
        rw [pull, if_pos (by simpa using hitem)]
      obtain ⟨idle, hidle, hend, hnew⟩ := ih (n + 1)
      rw [hpull]
      refine ⟨⟨spent.length, some item⟩ :: idle, List.forall_mem_cons.mpr ⟨hitem, hidle⟩, ?_, ?_⟩
      · exact fun n' h => .step (.known hitem) (hend n' h)
      · intro found rest n' h
        exact ⟨(hnew found rest n' h).1, .step (.known hitem) (hnew found rest n' h).2⟩
    · have hpull : pull seen (item :: items) n = (some (item, items), n + 1) := by
        rw [pull, if_neg (by simpa using hitem)]
      rw [hpull]
      refine ⟨[], by simp [told], fun n' h => ?_, fun found rest n' h => ?_⟩
      · cases h
      · cases h
        exact ⟨hitem, .step (.fresh hitem) .done⟩

/-- What one call comes to. All its askings but the last are idle: they answer what is known, or
nothing. The last one answers the location that the call tells, or no source is left. -/
inductive Call (m : Merge) : Option Resource → Merge → Prop
  | tells (idle : List Ask) (i : Nat) {item : Resource} {after : Merge}
    (known : ∀ item ∈ told idle, item.key ∈ m.seen)
    (reads : Reads m (idle ++ [⟨i, some item⟩]) after) (new : item.key ∉ m.seen)
    (seen : after.seen = item.key :: m.seen) : Call m (some item) after
  | ends (idle : List Ask) {after : Merge} (known : ∀ item ∈ told idle, item.key ∈ m.seen)
    (reads : Reads m idle after) (live : after.live = []) : Call m none after

theorem nextFrom_call (spent : List Nat) (seen : List Resource.Key) (live : List Source) :
    Call ⟨spent, live, seen⟩ (nextFrom spent seen live).1 (nextFrom spent seen live).2 := by
  induction live generalizing spent with
  | nil => exact .ends [] (by simp [told]) .done rfl
  | cons source others ih =>
    obtain ⟨idle, hidle, hend, hnew⟩ := pull_reads spent others seen source.rest source.asked
    rw [nextFrom]
    rcases hpull : pull seen source.rest source.asked with ⟨_ | ⟨item, rest⟩, n⟩
    · have hcall := ih (spent ++ [n])
      have hread := hend n hpull
      dsimp only
      generalize nextFrom (spent ++ [n]) seen others = out at hcall ⊢
      obtain ⟨answer, after⟩ := out
      cases hcall with
      | tells later i known reads new seen =>
        refine .tells (idle ++ later) i ?_ ?_ new seen
        · rw [told_append]
          exact List.forall_mem_append.mpr ⟨hidle, known⟩
        · rw [List.append_assoc]
          exact hread.append reads
      | ends later known reads live =>
        refine .ends (idle ++ later) ?_ (hread.append reads) live
        rw [told_append]
        exact List.forall_mem_append.mpr ⟨hidle, known⟩
    · obtain ⟨hitem, hread⟩ := hnew item rest n hpull
      exact .tells idle spent.length hidle hread hitem rfl

theorem next_call (m : Merge) : Call m m.next.1 m.next.2 := nextFrom_call m.spent m.seen m.live

theorem pending_eq_nil_of_next (h : m.next.1 = none) : m.pending = [] := by
  have hspec := nextFrom_spec m.spent m.seen m.live
  rcases hread : nextFrom m.spent m.seen m.live with ⟨_ | item, after⟩
  · rw [hread] at hspec
    exact hspec
  · rw [next, hread] at h
    cases h

theorem pending_of_next {item : Resource} (h : m.next.1 = some item) :
    m.pending = item :: m.next.2.pending := by
  have hspec := nextFrom_spec m.spent m.seen m.live
  rw [next] at h ⊢
  rcases hread : nextFrom m.spent m.seen m.live with ⟨_ | told, after⟩
  · rw [hread] at h
    cases h
  · rw [hread] at hspec h
    obtain rfl := Option.some.inj h
    exact hspec

/-! ### Several calls -/

/-- Where no source is left, none is asked. -/
theorem Reads.eq_nil_of_live (h : Reads m asks after) (hlive : m.live = []) :
    asks = [] ∧ after = m := by
  cases h with
  | done => exact ⟨rfl, rfl⟩
  | step first _ => cases first <;> cases hlive

/-- Calls tell what is still to be told, and then nothing. -/
theorem calls_answers (k : Nat) (m : Merge) :
    (calls k m).1 = (List.range k).map (m.pending[·]?) := by
  induction k generalizing m with
  | zero => rfl
  | succ k ih =>
    rw [calls, ih, List.range_succ_eq_map, List.map_cons, List.map_map]
    cases hnext : m.next.1 with
    | none =>
      have hcall := next_call m
      rw [hnext] at hcall
      cases hcall with
      | ends _ _ _ live =>
      have hbehind : m.next.2.pending = [] := by rw [pending, live]; rfl
      rw [pending_eq_nil_of_next hnext, hbehind]
      simp [Function.comp_def]
    | some item =>
      rw [pending_of_next hnext]
      rfl

theorem unseen_of_idle {seen : List Resource.Key} {idle before behind : List Ask}
    (h : ∀ item ∈ told idle, item.key ∈ seen) (hidle : idle = before ++ behind) :
    unseen seen (told before) = [] := by
  subst hidle
  rw [told_append, List.forall_mem_append] at h
  rw [← List.append_nil (told before), unseen_append_of_known h.1, unseen]

/-- The askings of so many calls. They stop as soon as enough has been answered. -/
theorem calls_reads (k : Nat) (m : Merge) :
    ∃ asks, Reads m asks (calls k m).2 ∧ unseen m.seen (told asks) = m.pending.take k ∧
      (m.pending.length < k → (calls k m).2.live = []) ∧
      ∀ before ask behind, asks = before ++ ask :: behind →
        (unseen m.seen (told before)).length < k := by
  induction k generalizing m with
  | zero => exact ⟨[], .done, rfl, nofun, by simp⟩
  | succ k ih =>
    obtain ⟨asks, hasks, htold, hlive, hneed⟩ := ih m.next.2
    have hcall := next_call m
    rw [calls]
    cases hnext : m.next.1 with
    | none =>
      rw [hnext] at hcall
      cases hcall with
      | ends idle known reads live =>
      obtain ⟨-, hafter⟩ := hasks.eq_nil_of_live live
      rw [hafter, pending_eq_nil_of_next hnext, List.take_nil]
      refine ⟨idle, reads, unseen_of_idle known (List.append_nil idle).symm, fun _ => live,
        fun before ask behind hsplit => ?_⟩
      rw [unseen_of_idle known hsplit]
      exact Nat.succ_pos k
    | some item =>
      rw [hnext] at hcall
      cases hcall with
      | tells idle i known reads new seen =>
      -- what follows the idle askings is told, and then what the other calls tell
      have hunseen : ∀ more, unseen m.seen (told (idle ++ ⟨i, some item⟩ :: more)) =
          item :: unseen m.next.2.seen (told more) := by
        intro more
        rw [told_append, unseen_append_of_known known, seen]
        exact unseen_cons_of_notMem new (told more)
      refine ⟨idle ++ ⟨i, some item⟩ :: asks, ?_, ?_, ?_, ?_⟩
      · simpa using reads.append hasks
      · rw [hunseen, htold, pending_of_next hnext, List.take_succ_cons]
      · intro hlen
        rw [pending_of_next hnext, List.length_cons] at hlen
        exact hlive (Nat.lt_of_succ_lt_succ hlen)
      · intro before ask behind hsplit
        rcases List.append_eq_append_iff.mp hsplit with ⟨rest, hbefore, hrest⟩ | ⟨rest, hidle, -⟩
        · cases rest with
          | nil =>
            rw [hbefore, List.append_nil, unseen_of_idle known (List.append_nil idle).symm]
            exact Nat.succ_pos k
          | cons first rest =>
            obtain ⟨rfl, hmore⟩ := List.cons.inj hrest
            rw [hbefore, hunseen, List.length_cons]
            exact Nat.succ_lt_succ (hneed rest ask behind hmore)
        · rw [unseen_of_idle known hidle]
          exact Nat.succ_pos k

/-- What any number of calls to sources read as one answer, and which sources are asked for it,
when. -/
theorem calls_on_demand (sources : List (List Resource)) (k : Nat) :
    let locations := Resource.firsts sources.flatten
    let answers := (calls k (ofSources sources)).1
    let after := (calls k (ofSources sources)).2
    answers = (List.range k).map (locations[·]?) ∧
    ∃ asks, Reads (ofSources sources) asks after ∧
      after.asked = (List.range sources.length).map (fun i => asks.countP (·.source == i)) ∧
      Resource.firsts (told asks) = locations.take k ∧
      (locations.length < k → ∀ i < sources.length, ⟨i, none⟩ ∈ asks) ∧
      ∀ before ask behind, asks = before ++ ask :: behind →
        (∀ i, ⟨i, none⟩ ∈ before ↔ i < ask.source) ∧
        (Resource.firsts (told before)).length < k := by
  intro locations answers after
  have hpending : (ofSources sources).pending = locations := by
    simp [pending, ofSources, Function.comp_def, unseen_nil, locations]
  obtain ⟨asks, hasks, htold, hlive, hneed⟩ := calls_reads k (ofSources sources)
  refine ⟨by rw [← hpending]; exact calls_answers k _, asks, hasks, ?_, ?_, ?_, ?_⟩
  · refine List.ext_getElem? fun i => ?_
    rw [hasks.getElem?_asked, asked_ofSources, List.getElem?_map, List.getElem?_replicate]
    by_cases hi : i < sources.length
    · rw [if_pos hi, List.getElem?_range hi, Option.map_some, Option.map_some, Nat.zero_add]
    · rw [if_neg hi, List.getElem?_eq_none (by simpa using hi), Option.map_none, Option.map_none]
  · rw [← unseen_nil, ← hpending]
    exact htold
  · intro hfew i hi
    rw [← hpending] at hfew
    have hlength : after.spent.length = sources.length := by
      have hcount := hasks.length_asked
      rw [asked_ofSources, List.length_replicate, asked, hlive hfew] at hcount
      simpa using hcount
    rw [hasks.mem_iff, hlength]
    exact ⟨Nat.zero_le i, hi⟩
  · rintro before ask behind rfl
    obtain ⟨mid, hbefore, hrest⟩ := hasks.exists_of_append
    cases hrest with
    | step first _ =>
    refine ⟨fun i => ?_, ?_⟩
    · rw [hbefore.mem_iff, first.source_eq]
      exact and_iff_right (Nat.zero_le i)
    · rw [← unseen_nil]
      exact hneed before ask behind rfl

/-- The third source is asked once, for the third location; what follows there is left alone. -/
example :
    let location := fun (id : Nat) (path : String) => Resource.memory ⟨id⟩ "" path []
    (calls 3 (ofSources [[location 1 "a", location 2 "a"], [location 2 "a", location 1 "a"],
      [location 1 "b", location 2 "b"]])).2.asked = [3, 3, 1] := by
  decide

end Understudy.Merge
