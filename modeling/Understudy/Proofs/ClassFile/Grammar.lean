import Understudy.Proofs.ClassFile.Layout
import Understudy.Proofs.ClassFile.Slots

/-!
Reading a class file is reading a sentence of the grammar. A run of constants is taken exactly when
it is written by the grammar and fills the slots that are missing, and there is one way to cut it
into constants. The slot of the class has to name a class, and that of the superclass names one or
is zero. Slots that no constant is numbered by are no references: where a class, or the name of one,
is looked for in such a slot, nothing is read. Main statement: `parse_eq_ok_iff_sentence`.
-/

namespace Understudy.Grammar

open BigEndian Cursor

/-! ### One constant -/

/-- How the payload behind a tag is read. -/
def Tag.kind : Tag → Payload
  | utf8 => .text
  | classRef => .classRef
  | string | methodType | moduleRef | packageRef => .fixed 2
  | methodHandle => .fixed 3
  | integer | float | fieldRef | methodRef | interfaceMethodRef | nameAndType | dynamic
  | invokeDynamic => .fixed 4
  | long | double => .wide 8

theorem Tag.ofTag?_byte (tag : Tag) : Payload.ofTag? tag.byte.toNat = some tag.kind := by
  cases tag <;> rfl

/-- No other byte is known as a tag. -/
theorem Tag.exists_of_ofTag? {n : Nat} {kind : Payload} (h : Payload.ofTag? n = some kind) :
    ∃ tag : Tag, tag.byte.toNat = n ∧ tag.kind = kind := by
  unfold Payload.ofTag? at h
  split at h <;> cases h
  · exact ⟨utf8, rfl, rfl⟩
  · exact ⟨classRef, rfl, rfl⟩
  · exact ⟨string, rfl, rfl⟩
  · exact ⟨methodType, rfl, rfl⟩
  · exact ⟨moduleRef, rfl, rfl⟩
  · exact ⟨packageRef, rfl, rfl⟩
  · exact ⟨methodHandle, rfl, rfl⟩
  · exact ⟨integer, rfl, rfl⟩
  · exact ⟨float, rfl, rfl⟩
  · exact ⟨fieldRef, rfl, rfl⟩
  · exact ⟨methodRef, rfl, rfl⟩
  · exact ⟨interfaceMethodRef, rfl, rfl⟩
  · exact ⟨nameAndType, rfl, rfl⟩
  · exact ⟨dynamic, rfl, rfl⟩
  · exact ⟨invokeDynamic, rfl, rfl⟩
  · exact ⟨long, rfl, rfl⟩
  · exact ⟨double, rfl, rfl⟩

theorem takes_map_skip_iff {size : Nat} {used : Bytes} {constant : Constant} :
    Takes (Cursor.map (fun _ => Constant.other) (skip size)) used constant ↔
      used.length = size ∧ constant = .other := by
  rw [(framed_skip size).takes_map_iff]
  constructor
  · rintro ⟨_, hused, rfl⟩
    exact ⟨takes_skip_iff.mp hused, rfl⟩
  · rintro ⟨hlength, rfl⟩
    exact ⟨(), takes_skip_iff.mpr hlength, rfl⟩

/-- What a payload is read from is what its tag admits. -/
theorem Tag.takes_read_iff (tag : Tag) {used : Bytes} {constant : Constant} :
    Takes tag.kind.read used constant ↔ tag.Admits used ∧ constant = tag.constant used := by
  rw [Payload.read_eq]
  cases tag with
  | utf8 =>
    simp only [kind, Admits, Tag.constant]
    rw [framed_counted.takes_map_iff]
    constructor
    · rintro ⟨text, htext, rfl⟩
      obtain ⟨hlength, rfl⟩ := takes_counted_iff.mp htext
      exact ⟨⟨text, hlength, rfl⟩, by rw [List.drop_left' (length_encode 2 text.length)]⟩
    · rintro ⟨⟨text, hlength, rfl⟩, rfl⟩
      refine ⟨text, takes_counted_iff.mpr ⟨hlength, rfl⟩, ?_⟩
      rw [List.drop_left' (length_encode 2 text.length)]
  | classRef =>
    simp only [kind, Admits, Tag.constant]
    rw [(framed_number 2).takes_map_iff]
    constructor
    · rintro ⟨n, hn, rfl⟩
      obtain ⟨hlength, rfl⟩ := takes_number_iff.mp hn
      exact ⟨hlength, rfl⟩
    · rintro ⟨hlength, rfl⟩
      exact ⟨decode used, takes_number_iff.mpr ⟨hlength, rfl⟩, rfl⟩
  | _ => exact takes_map_skip_iff

theorem takes_byte (b : UInt8) : Takes (number 1) [b] b.toNat :=
  takes_number_iff.mpr ⟨rfl, by simp [decode]⟩

/-- What a constant is read from is a constant of the grammar. -/
theorem takes_readConstant_iff {slot : Nat} {used : Bytes} {kind : Payload} {constant : Constant} :
    Takes (ConstantPool.readConstant slot) used (kind, constant) ↔
      ∃ item : Item, used = item.bytes ∧ kind = item.tag.kind ∧
        constant = item.tag.constant item.payload := by
  rw [ConstantPool.readConstant_eq,
    (framed_number 1).takes_andThen_iff (ConstantPool.framed_readTagged slot)]
  constructor
  · rintro ⟨front, payload, n, rfl, hfront, hpayload⟩
    obtain ⟨hlength, hvalue⟩ := takes_number_iff.mp hfront
    obtain ⟨b, rfl⟩ := List.length_eq_one_iff.mp hlength
    rw [ConstantPool.readTagged] at hpayload
    split at hpayload
    · exact absurd hpayload not_takes_error
    · next known hknown =>
      obtain ⟨tag, rfl, rfl⟩ := Tag.exists_of_ofTag? hknown
      obtain ⟨c, hc, heq⟩ := (Payload.framed_read _).takes_map_iff.mp hpayload
      obtain ⟨rfl, rfl⟩ := Prod.mk.inj heq
      obtain ⟨hadmits, rfl⟩ := tag.takes_read_iff.mp hc
      have hbyte : b = tag.byte := UInt8.toNat_inj.mp (by simpa [decode] using hvalue)
      exact ⟨⟨tag, payload, hadmits⟩, by rw [hbyte]; rfl, rfl, rfl⟩
  · rintro ⟨⟨tag, payload, hadmits⟩, rfl, rfl, rfl⟩
    refine ⟨[tag.byte], payload, tag.byte.toNat, rfl, takes_byte tag.byte, ?_⟩
    rw [ConstantPool.readTagged, tag.ofTag?_byte]
    exact (tag.takes_read_iff.mpr ⟨hadmits, rfl⟩).map (Prod.mk tag.kind)

/-! ### All constants -/

theorem readBehind_of_slots_eq_one {tag : Tag} (h : tag.slots = 1) (count missing : Nat)
    (filled : List Constant) (constant : Constant) :
    ConstantPool.readBehind count missing filled (tag.kind, constant) =
      ConstantPool.readSlots count missing (constant :: filled) := by
  cases tag <;> first | rfl | cases h

theorem readBehind_of_slots_eq_two {tag : Tag} (h : tag.slots = 2) (count missing : Nat)
    (filled : List Constant) (constant : Constant) :
    ConstantPool.readBehind count missing filled (tag.kind, constant) =
      match missing with
      | 0 => fun c => (.error (.malformed (.poolOverflow count) none), c)
      | left + 1 => ConstantPool.readSlots count left (.unused :: constant :: filled) := by
  cases tag <;> first | rfl | cases h

theorem framed_readBehind (count missing : Nat) (filled : List Constant)
    (read : Payload × Constant) : Framed (ConstantPool.readBehind count missing filled read) := by
  obtain ⟨kind, constant⟩ := read
  cases kind with
  | wide size =>
    cases missing with
    | zero => exact framed_error _
    | succ left => exact ConstantPool.framed_readSlots count left _
  | text => exact ConstantPool.framed_readSlots count missing _
  | classRef => exact ConstantPool.framed_readSlots count missing _
  | fixed size => exact ConstantPool.framed_readSlots count missing _

/-- What is kept of a constant comes last before the slots behind it are read. -/
theorem takes_readBehind_iff (item : Item) {count missing : Nat} {filled : List Constant}
    {used : Bytes} {pool : List Constant} :
    Takes (ConstantPool.readBehind count missing filled
        (item.tag.kind, item.tag.constant item.payload)) used pool ↔
      ∃ left, item.tag.slots + left = missing + 1 ∧
        Takes (ConstantPool.readSlots count left ((item.cells.map constantOf).reverse ++ filled))
          used pool := by
  rcases item.tag.slots_eq with hslots | hslots
  · have hcells : item.cells.map constantOf = [item.tag.constant item.payload] := by
      simp [Item.cells, constantOf, hslots]
    rw [readBehind_of_slots_eq_one hslots, hcells, hslots]
    constructor
    · intro h
      exact ⟨missing, by omega, h⟩
    · rintro ⟨left, hleft, h⟩
      obtain rfl : left = missing := by omega
      exact h
  · have hcells : item.cells.map constantOf = [item.tag.constant item.payload, .unused] := by
      simp [Item.cells, constantOf, hslots]
    rw [readBehind_of_slots_eq_two hslots, hcells, hslots]
    cases missing with
    | zero =>
      constructor
      · exact fun h => absurd h not_takes_error
      · rintro ⟨left, hleft, -⟩
        omega
    | succ missing =>
      constructor
      · intro h
        exact ⟨missing, by omega, h⟩
      · rintro ⟨left, hleft, h⟩
        obtain rfl : left = missing := by omega
        exact h

theorem slotCount_eq_zero_iff {items : List Item} : slotCount items = 0 ↔ items = [] := by
  cases items with
  | nil => simp
  | cons item items =>
    have hslots := item.tag.slots_eq
    simp only [slotCount_cons, reduceCtorEq, iff_false]
    omega

/-- The missing slots are read from constants that fill just these. By induction on the slots that
are missing; a wide constant takes two of them. -/
theorem takes_readSlots_iff (count : Nat) {missing : Nat} {filled : List Constant} {used : Bytes}
    {pool : List Constant} :
    Takes (ConstantPool.readSlots count missing filled) used pool ↔
      ∃ items : List Item, slotCount items = missing ∧ used = items.flatMap Item.bytes ∧
        pool = filled.reverse ++ (items.flatMap Item.cells).map constantOf := by
  induction missing using Nat.strongRecOn generalizing filled used with
  | ind missing ih =>
    cases missing with
    | zero =>
      show Takes (fun c => (.ok filled.reverse, c)) used pool ↔ _
      rw [takes_pure_iff]
      constructor
      · rintro ⟨rfl, rfl⟩
        exact ⟨[], rfl, rfl, (List.append_nil _).symm⟩
      · rintro ⟨items, hcount, rfl, rfl⟩
        obtain rfl := slotCount_eq_zero_iff.mp hcount
        exact ⟨rfl, (List.append_nil _).symm⟩
    | succ missing =>
      rw [ConstantPool.readSlots_succ, (ConstantPool.framed_readConstant _).takes_andThen_iff
        (framed_readBehind count missing filled)]
      constructor
      · rintro ⟨front, back, ⟨kind, constant⟩, rfl, hfront, hback⟩
        obtain ⟨item, rfl, rfl, rfl⟩ := takes_readConstant_iff.mp hfront
        obtain ⟨left, hleft, hrest⟩ := (takes_readBehind_iff item).mp hback
        have hslots := item.tag.slots_eq
        obtain ⟨items, rfl, rfl, rfl⟩ := (ih left (by omega)).mp hrest
        refine ⟨item :: items, by rw [slotCount_cons, hleft], rfl, ?_⟩
        simp
      · rintro ⟨items, hcount, rfl, rfl⟩
        cases items with
        | nil => cases hcount
        | cons item items =>
          rw [slotCount_cons] at hcount
          have hslots := item.tag.slots_eq
          refine ⟨item.bytes, items.flatMap Item.bytes, (item.tag.kind, _), rfl,
            takes_readConstant_iff.mpr ⟨item, rfl, rfl, rfl⟩, ?_⟩
          refine (takes_readBehind_iff item).mpr ⟨slotCount items, hcount, ?_⟩
          refine (ih _ (by omega)).mpr ⟨items, rfl, rfl, ?_⟩
          simp

theorem framed_readSized (count : Nat) : Framed (ConstantPool.readSized count) := by
  cases count with
  | zero => exact framed_error _
  | succ missing => exact ConstantPool.framed_readSlots (missing + 1) missing [.unused]

/-- A pool is read from a count and constants that fill the slots from one on that it leaves. -/
theorem takes_read_iff {used : Bytes} {pool : List Constant} :
    Takes ConstantPool.read used pool ↔ ∃ (count : UInt16) (items : List Item),
      1 + slotCount items = count.toNat ∧
      used = encode 2 count.toNat ++ items.flatMap Item.bytes ∧ pool = constants items := by
  rw [ConstantPool.read_eq, (framed_number 2).takes_andThen_iff framed_readSized]
  constructor
  · rintro ⟨front, back, n, rfl, hfront, hback⟩
    obtain ⟨hlength, hvalue⟩ := takes_number_iff.mp hfront
    cases n with
    | zero => exact absurd hback not_takes_error
    | succ missing =>
      obtain ⟨items, hcount, rfl, rfl⟩ := (takes_readSlots_iff (missing + 1)).mp hback
      have hword := toNat_toUInt16_decode hlength
      refine ⟨(decode front).toUInt16, items, by omega, ?_, rfl⟩
      rw [hword, encode_decode hlength]
  · rintro ⟨count, items, hfills, rfl, rfl⟩
    refine ⟨_, _, count.toNat, rfl, takes_encode count.toNat_lt, ?_⟩
    rw [← hfills, Nat.add_comm]
    exact (takes_readSlots_iff _).mpr ⟨items, rfl, rfl, rfl⟩

/-! ### One way to cut bytes into parts -/

theorem Item.takes_readConstant (item : Item) (slot : Nat) :
    Takes (ConstantPool.readConstant slot) item.bytes
      (item.tag.kind, item.tag.constant item.payload) :=
  takes_readConstant_iff.mpr ⟨item, rfl, rfl, rfl⟩

theorem Tag.byte_injective {tag other : Tag} (h : tag.byte = other.byte) : tag = other := by
  cases tag <;> cases other <;> first | rfl | exact absurd h (by decide)

theorem Item.bytes_injective {item other : Item} (h : item.bytes = other.bytes) : item = other := by
  obtain ⟨tag, payload, admits⟩ := item
  obtain ⟨otherTag, otherPayload, otherAdmits⟩ := other
  obtain ⟨hbyte, hpayload⟩ := List.cons.inj h
  obtain rfl := Tag.byte_injective hbyte
  obtain rfl : payload = otherPayload := hpayload
  rfl

/-- By induction on the constants: a constant takes the same bytes wherever it is read. -/
theorem items_unique : ∀ {items others : List Item} {rest otherRest : Bytes},
    slotCount items = slotCount others →
    items.flatMap Item.bytes ++ rest = others.flatMap Item.bytes ++ otherRest →
      items = others ∧ rest = otherRest
  | [], others, rest, otherRest, hcount, h => by
    obtain rfl := slotCount_eq_zero_iff.mp hcount.symm
    exact ⟨rfl, h⟩
  | item :: items, [], rest, otherRest, hcount, h => by
    cases slotCount_eq_zero_iff.mp hcount
  | item :: items, other :: others, rest, otherRest, hcount, h => by
    rw [List.flatMap_cons, List.flatMap_cons, List.append_assoc, List.append_assoc] at h
    obtain ⟨hbytes, -, hrest⟩ := (item.takes_readConstant 0).unique (other.takes_readConstant 0) h
    obtain rfl := Item.bytes_injective hbytes
    rw [slotCount_cons, slotCount_cons] at hcount
    obtain ⟨rfl, hend⟩ := items_unique (by omega) hrest
    exact ⟨rfl, hend⟩

theorem word_append_inj {word other : UInt16} {rest otherRest : Bytes}
    (h : encode 2 word.toNat ++ rest = encode 2 other.toNat ++ otherRest) :
    word = other ∧ rest = otherRest := by
  obtain ⟨-, hword, hrest⟩ := (takes_encode word.toNat_lt).unique (takes_encode other.toNat_lt) h
  exact ⟨UInt16.toNat_inj.mp hword, hrest⟩

namespace Sentence

theorem bytes_eq (w : Sentence) : w.bytes =
    encode 4 ClassFile.magic ++ (encode 2 w.version.minor.toNat ++
      (encode 2 w.version.major.toNat ++ ((encode 2 w.count.toNat ++ w.pool) ++
        ClassFile.Layout.behindPool w.accessFlags w.thisSlot w.superSlot w.tail))) := by
  simp only [bytes, ClassFile.Layout.behindPool, List.append_assoc]
  rfl

/-- The bytes leave no choice of how they are written. -/
theorem bytes_injective {v w : Sentence} (h : v.bytes = w.bytes) : v = w := by
  obtain ⟨⟨major, minor⟩, count, items, ⟨bits⟩, thisSlot, superSlot, tail, fills⟩ := v
  obtain ⟨⟨major', minor'⟩, count', items', ⟨bits'⟩, thisSlot', superSlot', tail', fills'⟩ := w
  simp only [bytes_eq, ClassFile.Layout.behindPool, pool, List.append_assoc] at h
  obtain ⟨rfl, hmajor⟩ := word_append_inj (List.append_cancel_left h)
  obtain ⟨rfl, hcount⟩ := word_append_inj hmajor
  obtain ⟨rfl, hpool⟩ := word_append_inj hcount
  obtain ⟨rfl, hflags⟩ := items_unique (by omega) hpool
  obtain ⟨rfl, hthis⟩ := word_append_inj hflags
  obtain ⟨rfl, hsuper⟩ := word_append_inj hthis
  obtain ⟨rfl, rfl⟩ := word_append_inj hsuper
  rfl

end Sentence

/-! ### Whole class files -/

/-- A class file is read from the bytes of a sentence whose slots name its classes. -/
theorem parse_eq_ok_iff_exists {d : Bytes} {file : ClassFile} :
    ClassFile.parse d = .ok file ↔ ∃ (w : Sentence) (name : String) (superName : Option String),
      w.bytes = d ∧ NamesClass w.items w.thisSlot name ∧
      NamesSuper w.items w.superSlot superName ∧ file = w.file name superName := by
  constructor
  · intro h
    obtain ⟨l, rfl⟩ := ClassFile.Layout.exists_of_parse h
    obtain ⟨count, items, hfills, hpool, hconstants⟩ := takes_read_iff.mp l.takes_pool
    have hname := l.className_eq
    have hsuper := l.superName_eq
    rw [hconstants] at hname hsuper
    let w : Sentence :=
      ⟨l.version, count, items, l.accessFlags, l.thisSlot, l.superSlot, l.tail, hfills⟩
    have hbytes : w.bytes = l.bytes := by
      rw [w.bytes_eq, ClassFile.Layout.bytes, hpool]
      rfl
    refine ⟨w, l.name, l.superName, ?_, className_constants_iff.mp hname,
      className?_constants_iff.mp hsuper, ?_⟩
    · rw [hbytes]
      exact ClassFile.bytes_of_parse h
    · rw [Sentence.file, hbytes, ClassFile.Layout.file, hpool]
      simp [w, Sentence.pool]
      omega
  · rintro ⟨w, name, superName, rfl, hname, hsuper, rfl⟩
    let l : ClassFile.Layout :=
      { version := w.version
        pool := encode 2 w.count.toNat ++ w.pool
        constants := constants w.items
        accessFlags := w.accessFlags
        thisSlot := w.thisSlot
        superSlot := w.superSlot
        name := name
        superName := superName
        tail := w.tail
        takes_pool := takes_read_iff.mpr ⟨w.count, w.items, w.fills, rfl, rfl⟩
        className_eq := className_constants_iff.mpr hname
        superName_eq := className?_constants_iff.mpr hsuper }
    have hbytes : l.bytes = w.bytes := w.bytes_eq.symm
    have hfile : l.file = w.file name superName := by
      rw [ClassFile.Layout.file, hbytes, Sentence.file]
      simp [l]
      omega
    rw [← hbytes, l.parse_bytes, hfile]

/-- Nothing is named by way of a slot that no constant is numbered by. -/
theorem not_namesClass_of_unnumbered {items : List Item} {slot : UInt16} {name : String}
    (h : Unnumbered items slot.toNat ∨
      ∃ nameSlot : UInt16, RefersTo items slot.toNat nameSlot ∧ Unnumbered items nameSlot.toNat) :
    ¬ NamesClass items slot name := by
  rintro ⟨nameSlot, text, hrefers, ⟨spelled, hspelled, -, -⟩, -⟩
  rcases h with hslot | ⟨other, hother, hnameSlot⟩
  · obtain ⟨reference, hreference, -, -⟩ := hrefers
    exact not_holdsAt_of_unnumbered hslot reference hreference
  · -- a slot refers to one slot at most
    have hsame := getElem?_constants_eq_classRef_iff.mpr ⟨nameSlot, hrefers, rfl⟩
    rw [getElem?_constants_eq_classRef_iff.mpr ⟨other, hother, rfl⟩] at hsame
    obtain rfl : other = nameSlot :=
      UInt16.toNat_inj.mp (Constant.classRef.inj (Option.some.inj hsame))
    exact not_holdsAt_of_unnumbered hnameSlot spelled hspelled

/-- A class file is read exactly from what the grammar writes, and there is no other way to write
the same bytes. -/
theorem parse_eq_ok_iff_sentence (d : Bytes) :
    ((∃ file, ClassFile.parse d = .ok file) ↔
      ∃ (w : Sentence) (name : String) (superName : Option String), w.bytes = d ∧
        NamesClass w.items w.thisSlot name ∧ NamesSuper w.items w.superSlot superName) ∧
    ∀ w : Sentence, w.bytes = d →
      (∀ v : Sentence, v.bytes = d → v = w) ∧
      (∀ file, ClassFile.parse d = .ok file ↔ ∃ name superName,
        NamesClass w.items w.thisSlot name ∧ NamesSuper w.items w.superSlot superName ∧
          file = w.file name superName) ∧
      ∀ slot : UInt16, slot = w.thisSlot ∨ (slot = w.superSlot ∧ slot ≠ 0) →
        (Unnumbered w.items slot.toNat ∨ ∃ nameSlot : UInt16,
          RefersTo w.items slot.toNat nameSlot ∧ Unnumbered w.items nameSlot.toNat) →
        ∃ e, ClassFile.parse d = .error e := by
  constructor
  · constructor
    · rintro ⟨file, h⟩
      obtain ⟨w, name, superName, hbytes, hname, hsuper, -⟩ := parse_eq_ok_iff_exists.mp h
      exact ⟨w, name, superName, hbytes, hname, hsuper⟩
    · rintro ⟨w, name, superName, hbytes, hname, hsuper⟩
      exact ⟨_, parse_eq_ok_iff_exists.mpr ⟨w, name, superName, hbytes, hname, hsuper, rfl⟩⟩
  · intro w hw
    have hfile : ∀ file, ClassFile.parse d = .ok file ↔ ∃ name superName,
        NamesClass w.items w.thisSlot name ∧ NamesSuper w.items w.superSlot superName ∧
          file = w.file name superName := by
      intro file
      rw [parse_eq_ok_iff_exists]
      constructor
      · rintro ⟨v, name, superName, hv, hnames⟩
        obtain rfl := Sentence.bytes_injective (hv.trans hw.symm)
        exact ⟨name, superName, hnames⟩
      · rintro ⟨name, superName, hnames⟩
        exact ⟨w, name, superName, hw, hnames⟩
    refine ⟨fun v hv => Sentence.bytes_injective (hv.trans hw.symm), hfile, ?_⟩
    intro slot hslot hunnumbered
    cases hparse : ClassFile.parse d with
    | error e => exact ⟨e, rfl⟩
    | ok file =>
      obtain ⟨name, superName, hname, hsuper, -⟩ := (hfile file).mp hparse
      rcases hslot with rfl | ⟨rfl, hne⟩
      · exact absurd hname (not_namesClass_of_unnumbered hunnumbered)
      · cases superName with
        | none => exact absurd hsuper hne
        | some _ => exact absurd hsuper.2 (not_namesClass_of_unnumbered hunnumbered)

/-- A class whose name lies behind the reference to it and behind a constant of two slots. -/
def forward (thisSlot : UInt16) : Sentence where
  version := ⟨52, 0⟩
  count := 5
  items := [⟨.classRef, [0, 4], rfl⟩, ⟨.long, [0, 0, 0, 0, 0, 0, 0, 1], rfl⟩,
    ⟨.utf8, [0, 1, 0x41], [0x41], by decide, rfl⟩]
  accessFlags := ⟨0x21⟩
  thisSlot := thisSlot
  superSlot := 0
  tail := []
  fills := rfl

/-- Its first slot names the class `A`; the second slot of the wide constant names none. -/
theorem parse_eq_ok_iff_sentence_forward :
    ClassFile.parse (forward 1).bytes = .ok ((forward 1).file "A" none) ∧
      ∃ e, ClassFile.parse (forward 3).bytes = .error e := by
  constructor
  · refine (((parse_eq_ok_iff_sentence _).2 (forward 1) rfl).2.1 _).mpr ⟨"A", none, ?_, rfl, rfl⟩
    refine ⟨4, [0x41], ⟨_, ⟨[], _, rfl, rfl⟩, rfl, rfl⟩, ?_, by decide +kernel⟩
    exact ⟨_, ⟨[_, _], [], rfl, rfl⟩, rfl, rfl⟩
  · refine ((parse_eq_ok_iff_sentence _).2 (forward 3) rfl).2.2 3 (.inl rfl) (.inl (.inr ?_))
    exact ⟨[_], _, [_], rfl, rfl, rfl⟩

end Understudy.Grammar
