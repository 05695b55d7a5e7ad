/-!
Values kept under names. A name has at most one value, and storing another one replaces it.
-/

namespace Understudy

/-- Values under names. -/
abbrev Keyed (α : Type) := List (String × α)

namespace Keyed

variable {α : Type}

/-- The value under a name. -/
def find? (items : Keyed α) (key : String) : Option α :=
  (List.find? (·.1 == key) items).map Prod.snd

/-- Whether there is a value under a name. -/
def has (items : Keyed α) (key : String) : Bool := (items.find? key).isSome

/-- Stores a value under a name, in the place of the one that was there. -/
def insert (items : Keyed α) (key : String) (value : α) : Keyed α :=
  (key, value) :: List.filter (·.1 != key) items

@[simp]
theorem find?_nil (key : String) : find? ([] : Keyed α) key = none := rfl

theorem find?_cons (name key : String) (value : α) (items : Keyed α) :
    find? ((name, value) :: items) key = if name = key then some value else find? items key := by
  by_cases h : name = key <;> simp [find?, h]

@[simp]
theorem find?_insert_self (items : Keyed α) (key : String) (value : α) :
    (items.insert key value).find? key = some value := by
  simp [insert, find?_cons]

theorem find?_insert_of_ne (items : Keyed α) {key other : String} (value : α) (h : key ≠ other) :
    (items.insert key value).find? other = items.find? other := by
  rw [insert, find?_cons, if_neg h]
  induction items with
  | nil => rfl
  | cons item items ih =>
    obtain ⟨name, stored⟩ := item
    by_cases hk : name = key
    · have : name ≠ other := fun e => h (hk ▸ e)
      simp [hk, find?_cons, h, ih]
    · simp only [List.filter_cons, bne_iff_ne, ne_eq, hk, not_false_eq_true, ↓reduceIte,
        find?_cons, ih]

theorem find?_insert (items : Keyed α) (key other : String) (value : α) :
    (items.insert key value).find? other =
      if key = other then some value else items.find? other := by
  split
  · next h => rw [← h, find?_insert_self]
  · next h => exact find?_insert_of_ne items value h

theorem mem_of_find?_eq_some {items : Keyed α} {key : String} {value : α}
    (h : items.find? key = some value) : (key, value) ∈ items := by
  obtain ⟨item, hitem, hvalue⟩ := Option.map_eq_some_iff.mp h
  have hkey : item.1 = key := by simpa using List.find?_some hitem
  rw [← hkey, ← hvalue]
  exact List.mem_of_find?_eq_some hitem

theorem mem_insert {items : Keyed α} {key : String} {value : α} {item : String × α} :
    item ∈ items.insert key value ↔ item = (key, value) ∨ item.1 ≠ key ∧ item ∈ items := by
  simp [insert, and_comm]

theorem nodup_keys_insert {items : Keyed α} (key : String) (value : α)
    (h : (items.map Prod.fst).Nodup) : ((items.insert key value).map Prod.fst).Nodup := by
  rw [insert, List.map_cons, List.nodup_cons]
  refine ⟨?_, h.sublist (List.filter_sublist.map _)⟩
  intro hmem
  obtain ⟨item, hitem, hkey⟩ := List.mem_map.mp hmem
  simp [hkey] at hitem

end Keyed

end Understudy
