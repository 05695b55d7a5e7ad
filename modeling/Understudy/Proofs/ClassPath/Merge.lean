import Understudy.ClassPath.Merge

/-!
What sources tell that are read as one: what they hold one after the other, each location where it
comes first. Main statement: `collect_eq`.
-/

namespace Understudy

/-- Whether two locations are the same. -/
def Resource.isSame (a b : Resource) : Bool := a.key == b.key

/-- Locations in order, each only where it comes first. -/
def Resource.firsts (items : List Resource) : List Resource := items.eraseDupsBy Resource.isSame

namespace Merge

/-- What is told of some locations where those of `seen` have been told before. -/
def unseen : List Resource.Key → List Resource → List Resource
  | _, [] => []
  | seen, item :: rest =>
    if item.key ∈ seen then unseen seen rest else item :: unseen (item.key :: seen) rest

theorem unseen_cons_of_mem {seen : List Resource.Key} {item : Resource} (h : item.key ∈ seen)
    (rest : List Resource) : unseen seen (item :: rest) = unseen seen rest := by
  rw [unseen, if_pos h]

theorem unseen_cons_of_notMem {seen : List Resource.Key} {item : Resource} (h : item.key ∉ seen)
    (rest : List Resource) :
    unseen seen (item :: rest) = item :: unseen (item.key :: seen) rest := by
  rw [unseen, if_neg h]

/-- What is still to be told. -/
def pending (m : Merge) : List Resource := unseen m.seen (m.live.map (·.rest)).flatten

/-! ### What is asked for next -/

/-- A source is passed when it holds nothing new, and otherwise left behind its first location that
is new. -/
theorem pull_spec (seen : List Resource.Key) (items : List Resource) (asked : Nat) :
    match (pull seen items asked).1 with
    | none => ∀ behind, unseen seen (items ++ behind) = unseen seen behind
    | some (item, rest) => ∀ behind,
      unseen seen (items ++ behind) = item :: unseen (item.key :: seen) (rest ++ behind) := by
  induction items generalizing asked with
  | nil => exact fun behind => rfl
  | cons item rest ih =>
    by_cases h : item.key ∈ seen
    · have hpull : pull seen (item :: rest) asked = pull seen rest (asked + 1) := by
        rw [pull, if_pos (by simpa using h)]
      rw [hpull]
      simpa only [List.cons_append, unseen_cons_of_mem h] using ih (asked + 1)
    · have hpull : pull seen (item :: rest) asked = (some (item, rest), asked + 1) := by
        rw [pull, if_neg (by simpa using h)]
      rw [hpull]
      exact fun behind => unseen_cons_of_notMem h (rest ++ behind)

/-- The next location is the first that is still to be told. -/
theorem nextFrom_spec (spent : List Nat) (seen : List Resource.Key) (live : List Source) :
    match nextFrom spent seen live with
    | (none, _) => unseen seen (live.map (·.rest)).flatten = []
    | (some item, m) => unseen seen (live.map (·.rest)).flatten = item :: m.pending := by
  induction live generalizing spent with
  | nil => rfl
  | cons source others ih =>
    have hpull := pull_spec seen source.rest source.asked
    rw [nextFrom, List.map_cons, List.flatten_cons]
    rcases hread : pull seen source.rest source.asked with ⟨_ | ⟨item, rest⟩, asked⟩
    · rw [hread] at hpull
      rw [hpull]
      exact ih (spent ++ [asked])
    · rw [hread] at hpull
      exact hpull _

/-- By induction on how many locations are asked for. -/
theorem take_eq (n : Nat) (m : Merge) : m.take n = m.pending.take n := by
  induction n generalizing m with
  | zero => rfl
  | succ n ih =>
    have hnext := nextFrom_spec m.spent m.seen m.live
    rw [Merge.take, next, pending]
    rcases hread : nextFrom m.spent m.seen m.live with ⟨_ | item, rest⟩
    · rw [hread] at hnext
      rw [hnext, List.take_nil]
    · rw [hread] at hnext
      rw [hnext, List.take_succ_cons, ← ih rest]

/-! ### All locations -/

/-- What is told stands among what there is, in the same order. -/
theorem unseen_sublist (seen : List Resource.Key) (items : List Resource) :
    (unseen seen items).Sublist items := by
  induction items generalizing seen with
  | nil => exact .slnil
  | cons item rest ih =>
    by_cases h : item.key ∈ seen
    · rw [unseen_cons_of_mem h]
      exact (ih seen).cons item
    · rw [unseen_cons_of_notMem h]
      exact (ih _).cons_cons item

theorem unseen_eq (seen : List Resource.Key) (items : List Resource) :
    unseen seen items = Resource.firsts (items.filter (·.key ∉ seen)) := by
  induction items generalizing seen with
  | nil => rfl
  | cons item rest ih =>
    by_cases h : item.key ∈ seen
    · rw [unseen_cons_of_mem h, ih, List.filter_cons_of_neg (by simpa using h)]
    · rw [unseen_cons_of_notMem h, ih, List.filter_cons_of_pos (by simpa using h), Resource.firsts,
        Resource.firsts, List.eraseDupsBy_cons, List.filter_filter]
      congr 2
      refine List.filter_congr fun other _ => ?_
      simp [Resource.isSame]

theorem unseen_nil (items : List Resource) : unseen [] items = Resource.firsts items := by
  rw [unseen_eq, List.filter_eq_self.mpr fun item _ => by simp]

/-- Sources read as one tell what they hold one after the other, each location where it comes
first. -/
theorem collect_eq (sources : List (List Resource)) :
    collect sources = Resource.firsts sources.flatten := by
  have hpending : (ofSources sources).pending = unseen [] sources.flatten := by
    simp [pending, ofSources, Function.comp_def]
  rw [collect, take_eq, hpending, List.take_of_length_le (unseen_sublist [] _).length_le,
    unseen_nil]

/-- What is told is what had not been told before. -/
theorem mem_keys_unseen_iff {seen : List Resource.Key} {items : List Resource}
    {key : Resource.Key} :
    key ∈ (unseen seen items).map (·.key) ↔ key ∈ items.map (·.key) ∧ key ∉ seen := by
  induction items generalizing seen with
  | nil => simp [unseen]
  | cons item rest ih =>
    by_cases h : item.key ∈ seen
    · rw [unseen_cons_of_mem h, ih, List.map_cons, List.mem_cons]
      constructor
      · exact fun hkey => ⟨.inr hkey.1, hkey.2⟩
      · rintro ⟨rfl | hrest, hnew⟩
        · exact absurd h hnew
        · exact ⟨hrest, hnew⟩
    · rw [unseen_cons_of_notMem h, List.map_cons, List.mem_cons, ih, List.map_cons, List.mem_cons,
        List.mem_cons]
      by_cases hkey : key = item.key
      · simp [hkey, h]
      · simp [hkey]

/-- Nothing is told twice. -/
theorem nodup_keys_unseen (seen : List Resource.Key) (items : List Resource) :
    ((unseen seen items).map (·.key)).Nodup := by
  induction items generalizing seen with
  | nil => exact List.nodup_nil
  | cons item rest ih =>
    by_cases h : item.key ∈ seen
    · rw [unseen_cons_of_mem h]
      exact ih seen
    · rw [unseen_cons_of_notMem h, List.map_cons, List.nodup_cons]
      refine ⟨fun hmem => ?_, ih _⟩
      exact (mem_keys_unseen_iff.mp hmem).2 List.mem_cons_self

end Merge

namespace Resource

/-! ### Locations that come first -/

/-- No location is lost. -/
theorem mem_keys_firsts_iff {items : List Resource} {key : Key} :
    key ∈ (firsts items).map (·.key) ↔ key ∈ items.map (·.key) := by
  rw [← Merge.unseen_nil, Merge.mem_keys_unseen_iff]
  simp

theorem mem_of_mem_firsts {items : List Resource} {location : Resource}
    (h : location ∈ firsts items) : location ∈ items := by
  rw [← Merge.unseen_nil] at h
  exact (Merge.unseen_sublist [] items).subset h

theorem nodup_keys_firsts (items : List Resource) : ((firsts items).map (·.key)).Nodup := by
  rw [← Merge.unseen_nil]
  exact Merge.nodup_keys_unseen [] items

/-- The first of all locations comes first. -/
theorem head?_firsts (items : List Resource) : (firsts items).head? = items.head? := by
  cases items with
  | nil => rfl
  | cons item rest =>
    rw [← Merge.unseen_nil, Merge.unseen_cons_of_notMem (by simp), List.head?_cons, List.head?_cons]

end Resource

end Understudy
