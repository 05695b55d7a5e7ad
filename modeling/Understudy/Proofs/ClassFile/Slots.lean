import Understudy.ClassFile.Grammar
import Understudy.Proofs.Bytes.BigEndian

/-!
The slots of a constant pool. Written out slot by slot, a list of constants tells which constant
each slot holds; a slot that no constant is numbered by holds none. Looking a class up by the
constants of the slots is looking it up by the grammar.
-/

namespace Understudy

/-- The name of a class is found by two look-ups. -/
theorem ConstantPool.className_eq_ok_iff {pool : List Constant} {slot : Nat} {name : String} :
    className pool slot = .ok name ↔ ∃ nameSlot payload,
      pool[slot]? = some (.classRef nameSlot) ∧ pool[nameSlot]? = some (.text payload) ∧
        name = ClassName.binary (Utf8.decodeLossy payload) := by
  constructor
  · intro h
    rw [className] at h
    split at h
    · next nameSlot hslot =>
      split at h
      · next payload hname => exact ⟨nameSlot, payload, hslot, hname, (Except.ok.inj h).symm⟩
      · cases h
    · cases h
  · rintro ⟨nameSlot, payload, hslot, hname, rfl⟩
    simp only [className, hslot, hname]

namespace Grammar

open BigEndian

/-! ### What each slot holds -/

/-- The slots of a constant: it lies in the first, and nothing in the second if there is one. -/
def Item.cells (item : Item) : List (Option Item) :=
  some item :: List.replicate (item.tag.slots - 1) none

/-- All slots of a pool. -/
def cells (items : List Item) : List (Option Item) := none :: items.flatMap Item.cells

theorem Tag.slots_eq (tag : Tag) : tag.slots = 1 ∨ tag.slots = 2 := by
  cases tag <;> decide

@[simp]
theorem slotCount_nil : slotCount [] = 0 := rfl

@[simp]
theorem slotCount_cons (item : Item) (items : List Item) :
    slotCount (item :: items) = item.tag.slots + slotCount items := rfl

theorem Item.length_cells (item : Item) : item.cells.length = item.tag.slots := by
  have hslots := item.tag.slots_eq
  simp only [cells, List.length_cons, List.length_replicate]
  omega

theorem length_flatMap_cells (items : List Item) :
    (items.flatMap Item.cells).length = slotCount items := by
  induction items with
  | nil => rfl
  | cons item items ih =>
    rw [List.flatMap_cons, List.length_append, item.length_cells, ih, slotCount_cons]

/-- A constant and what lies behind it, as found from the first slot of the constant on. -/
theorem getElem?_cells_append (before behind : List Item) (item : Item) (i : Nat) :
    (cells (before ++ item :: behind))[1 + slotCount before + i]? =
      (item.cells ++ behind.flatMap Item.cells)[i]? := by
  have hindex : 1 + slotCount before + i = (slotCount before + i) + 1 := by omega
  rw [cells, hindex, List.getElem?_cons_succ, List.flatMap_append, List.flatMap_cons,
    List.getElem?_append_right (by rw [length_flatMap_cells]; omega), length_flatMap_cells,
    Nat.add_sub_cancel_left]

/-- By induction on the constants: the slot is the first one of the first constant, or lies behind
that constant. -/
theorem exists_of_getElem?_flatMap_cells : ∀ {items : List Item} {i : Nat} {item : Item},
    (items.flatMap Item.cells)[i]? = some (some item) →
      ∃ before behind, items = before ++ item :: behind ∧ i = slotCount before
  | [], i, item, h => by simp at h
  | first :: rest, i, item, h => by
    rw [List.flatMap_cons] at h
    by_cases hi : i < first.cells.length
    · rw [List.getElem?_append_left hi] at h
      cases i with
      | zero =>
        obtain rfl : first = item := by simpa [Item.cells] using h
        exact ⟨[], rest, rfl, rfl⟩
      | succ i => simp [Item.cells, List.getElem?_replicate] at h
    · rw [List.getElem?_append_right (by omega), first.length_cells] at h
      rw [first.length_cells] at hi
      obtain ⟨before, behind, rfl, hbefore⟩ := exists_of_getElem?_flatMap_cells h
      refine ⟨first :: before, behind, rfl, ?_⟩
      rw [slotCount_cons]
      omega

theorem getElem?_cells_eq_some_iff {items : List Item} {slot : Nat} {item : Item} :
    (cells items)[slot]? = some (some item) ↔ HoldsAt items slot item := by
  constructor
  · intro h
    cases slot with
    | zero => simp [cells] at h
    | succ i =>
      obtain ⟨before, behind, hitems, hi⟩ :=
        exists_of_getElem?_flatMap_cells (by simpa [cells] using h)
      exact ⟨before, behind, hitems, by omega⟩
  · rintro ⟨before, behind, rfl, rfl⟩
    exact getElem?_cells_append before behind item 0

/-- No constant is found in a slot that none is numbered by. -/
theorem not_holdsAt_of_unnumbered {items : List Item} {slot : Nat} (h : Unnumbered items slot)
    (item : Item) : ¬ HoldsAt items slot item := by
  rw [← getElem?_cells_eq_some_iff]
  rcases h with rfl | ⟨before, wide, behind, rfl, hwide, rfl⟩
  · simp [cells]
  · rw [getElem?_cells_append before behind wide 1]
    simp [Item.cells, hwide]

/-! ### What is kept of each constant -/

/-- What is kept of a constant. -/
def Tag.constant : Tag → Bytes → Constant
  | utf8, payload => .text (payload.drop 2)
  | classRef, payload => .classRef (decode payload)
  | _, _ => .other

/-- What is kept of a slot. -/
def constantOf : Option Item → Constant
  | none => .unused
  | some item => item.tag.constant item.payload

/-- What is kept of a pool. -/
def constants (items : List Item) : List Constant := (cells items).map constantOf

/-- Only class references are kept as such. -/
theorem constantOf_eq_classRef_iff {cell : Option Item} {nameSlot : Nat} :
    constantOf cell = .classRef nameSlot ↔ ∃ item word, cell = some item ∧ item.tag = .classRef ∧
      item.payload = encode 2 word.toNat ∧ nameSlot = UInt16.toNat word := by
  constructor
  · intro h
    cases cell with
    | none => cases h
    | some item =>
      obtain ⟨tag, payload, admits⟩ := item
      cases tag <;> cases h
      have hlength : payload.length = 2 := admits
      have hword := toNat_toUInt16_decode hlength
      refine ⟨_, (decode payload).toUInt16, rfl, rfl, ?_, hword.symm⟩
      rw [hword, encode_decode hlength]
  · rintro ⟨⟨tag, payload, admits⟩, word, rfl, rfl, rfl, rfl⟩
    exact congrArg Constant.classRef (decode_encode word.toNat_lt)

/-- Only texts are kept as such. -/
theorem constantOf_eq_text_iff {cell : Option Item} {text : Bytes} :
    constantOf cell = .text text ↔ ∃ item, cell = some item ∧ item.tag = .utf8 ∧
      item.payload = encode 2 text.length ++ text := by
  constructor
  · intro h
    cases cell with
    | none => cases h
    | some item =>
      obtain ⟨tag, payload, admits⟩ := item
      cases tag <;> cases h
      obtain ⟨text, -, rfl⟩ := admits
      refine ⟨_, rfl, rfl, ?_⟩
      rw [List.drop_left' (length_encode 2 text.length)]
  · rintro ⟨⟨tag, payload, admits⟩, rfl, rfl, rfl⟩
    exact congrArg Constant.text (List.drop_left' (length_encode 2 text.length))

theorem getElem?_constants_eq_classRef_iff {items : List Item} {slot nameSlot : Nat} :
    (constants items)[slot]? = some (.classRef nameSlot) ↔
      ∃ word, RefersTo items slot word ∧ nameSlot = word.toNat := by
  simp only [constants, List.getElem?_map, Option.map_eq_some_iff, constantOf_eq_classRef_iff]
  constructor
  · rintro ⟨_, hcell, item, word, rfl, htag, hpayload, hword⟩
    exact ⟨word, ⟨item, getElem?_cells_eq_some_iff.mp hcell, htag, hpayload⟩, hword⟩
  · rintro ⟨word, ⟨item, hitem, htag, hpayload⟩, hword⟩
    exact ⟨_, getElem?_cells_eq_some_iff.mpr hitem, item, word, rfl, htag, hpayload, hword⟩

theorem getElem?_constants_eq_text_iff {items : List Item} {slot : Nat} {text : Bytes} :
    (constants items)[slot]? = some (.text text) ↔ Spells items slot text := by
  simp only [constants, List.getElem?_map, Option.map_eq_some_iff, constantOf_eq_text_iff]
  constructor
  · rintro ⟨_, hcell, item, rfl, htag, hpayload⟩
    exact ⟨item, getElem?_cells_eq_some_iff.mp hcell, htag, hpayload⟩
  · rintro ⟨item, hitem, htag, hpayload⟩
    exact ⟨_, getElem?_cells_eq_some_iff.mpr hitem, item, rfl, htag, hpayload⟩

/-! ### Looking classes up -/

theorem className_constants_iff {items : List Item} {slot : UInt16} {name : String} :
    ConstantPool.className (constants items) slot.toNat = .ok name ↔
      NamesClass items slot name := by
  simp only [ConstantPool.className_eq_ok_iff, getElem?_constants_eq_classRef_iff,
    getElem?_constants_eq_text_iff, NamesClass]
  constructor
  · rintro ⟨_, text, ⟨word, hrefers, rfl⟩, hspells, hname⟩
    exact ⟨word, text, hrefers, hspells, hname⟩
  · rintro ⟨word, text, hrefers, hspells, hname⟩
    exact ⟨_, text, ⟨word, hrefers, rfl⟩, hspells, hname⟩

theorem className?_constants_iff {items : List Item} {slot : UInt16} {superName : Option String} :
    ConstantPool.className? (constants items) slot.toNat = .ok superName ↔
      NamesSuper items slot superName := by
  have hzero : slot.toNat = 0 ↔ slot = 0 := UInt16.toNat_inj (b := 0)
  rw [ConstantPool.className?]
  by_cases h : slot = 0
  · rw [if_pos (hzero.mpr h)]
    cases superName with
    | none => simp [NamesSuper, h]
    | some name => simp [NamesSuper, h]
  · rw [if_neg (mt hzero.mp h)]
    cases superName with
    | none =>
      cases ConstantPool.className (constants items) slot.toNat <;> simp [Except.map, NamesSuper, h]
    | some name =>
      rw [NamesSuper, ← className_constants_iff]
      cases ConstantPool.className (constants items) slot.toNat <;> simp [Except.map, h]

end Grammar

end Understudy
