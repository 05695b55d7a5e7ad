import Understudy.Proofs.ClassFile.Grammar
import Understudy.Proofs.ClassFile.Name
import Understudy.Proofs.Session.Answers
import Understudy.Proofs.Text.Faithful

/-!
The name of a class that is defined directly. It is compared with the name that the bytes embed as
this name reads, so bytes pass that read alike: points may stand for slashes, and a replacement for
whatever cannot be read. There is no other latitude: if the name asked for has no replacements, the
embedded one is a text, and a text without points is, byte for byte, the name asked for as class
files write it. Main statement: `define_checks_name`.
-/

namespace Understudy

/-! ### Names that class files embed -/

namespace Grammar

variable {items : List Item} {bytes payload other : Bytes} {slot : Nat}

theorem RefersTo.unique {a b : UInt16} (ha : RefersTo items slot a) (hb : RefersTo items slot b) :
    a = b := by
  have hfirst := getElem?_constants_eq_classRef_iff.mpr ⟨a, ha, rfl⟩
  have hsecond := getElem?_constants_eq_classRef_iff.mpr ⟨b, hb, rfl⟩
  exact UInt16.toNat_inj.mp (Constant.classRef.inj (Option.some.inj (hfirst.symm.trans hsecond)))

theorem Spells.unique (h : Spells items slot payload) (k : Spells items slot other) :
    payload = other := by
  have hfirst := getElem?_constants_eq_text_iff.mpr h
  have hsecond := getElem?_constants_eq_text_iff.mpr k
  exact Constant.text.inj (Option.some.inj (hfirst.symm.trans hsecond))

/-- The bytes of a class file embed the name of the class: it is what the text is made of that the
class refers to. -/
def EmbedsName (bytes payload : Bytes) : Prop :=
  ∃ (w : Sentence) (nameSlot : UInt16), w.bytes = bytes ∧
    RefersTo w.items w.thisSlot.toNat nameSlot ∧ Spells w.items nameSlot.toNat payload

theorem EmbedsName.unique (h : EmbedsName bytes payload) (k : EmbedsName bytes other) :
    payload = other := by
  obtain ⟨w, a, hw, hrefers, hspells⟩ := h
  obtain ⟨v, b, hv, hrefers', hspells'⟩ := k
  obtain rfl := Sentence.bytes_injective (hw.trans hv.symm)
  obtain rfl := hrefers.unique hrefers'
  exact hspells.unique hspells'

/-- What is read is a class file that embeds a name, and it bears this name as it reads. -/
theorem exists_embedsName_of_parse {file : ClassFile} (h : ClassFile.parse bytes = .ok file) :
    ∃ payload, EmbedsName bytes payload ∧
      file.name = ClassName.binary (Utf8.decodeLossy payload) := by
  obtain ⟨w, name, superName, hbytes, ⟨nameSlot, payload, hrefers, hspells, rfl⟩, -, rfl⟩ :=
    parse_eq_ok_iff_exists.mp h
  exact ⟨payload, ⟨w, nameSlot, hbytes, hrefers, hspells⟩, rfl⟩

end Grammar

/-! ### What passes for a name -/

namespace ClassName

variable {payload : Bytes} {name : String}

/-- Bytes read as a name that class files write like this one. -/
def PassesFor (payload : Bytes) (name : String) : Prop :=
  '/' ∉ name.toList ∧ internal (Utf8.decodeLossy payload) = internal name

/-- Bytes are those of a text without points. -/
def IsPlain (payload : Bytes) : Prop :=
  ∃ text, payload = Utf8.encode text ∧ '.' ∉ text.toList

theorem passesFor_iff : PassesFor payload name ↔ binary (Utf8.decodeLossy payload) = name := by
  refine ⟨fun h => (binary_eq_iff h.1).mpr h.2, ?_⟩
  rintro rfl
  exact ⟨notMem_replaceChar (by decide) _, (internal_binary _).symm⟩

theorem mem_binary {c : Char} {text : String} (h : c ∈ text.toList) (hc : c ≠ '/') :
    c ∈ (binary text).toList := by
  rw [binary, replaceChar, String.toList_ofList]
  exact List.mem_map.mpr ⟨c, h, if_neg hc⟩

/-- What passes for a name without replacements is a text. -/
theorem PassesFor.exists_text (h : PassesFor payload name)
    (hname : Utf8.replacement ∉ name.toList) : ∃ text, payload = Utf8.encode text := by
  refine ⟨Utf8.decodeLossy payload, (Utf8.encode_decodeLossy fun hread => hname ?_).symm⟩
  rw [← passesFor_iff.mp h]
  exact mem_binary hread (by decide)

/-- A text without points passes for no name but as class files write it. -/
theorem PassesFor.eq_encode (h : PassesFor payload name) (hplain : IsPlain payload) :
    payload = Utf8.encode (internal name) := by
  obtain ⟨text, rfl, hpoint⟩ := hplain
  have hread := h.2
  rw [Utf8.decodeLossy_encode, internal_eq_self_iff.mpr hpoint] at hread
  rw [hread]

end ClassName

open Grammar ClassName

namespace Definition

/-- Which names the class of a request may bear is told by the name that its bytes embed. -/
theorem exists_classFile_iff {d : Definition} {window payload : Bytes}
    (hwindow : d.window = .ok window) (hembeds : EmbedsName window payload)
    (hparse : ∃ file, ClassFile.parse window = .ok file) (name : String) :
    (∃ file, Definition.classFile { d with name := name } = .ok file) ↔ PassesFor payload name := by
  obtain ⟨file, hparse⟩ := hparse
  obtain ⟨found, hfound, hname⟩ := exists_embedsName_of_parse hparse
  obtain rfl := hfound.unique hembeds
  have hwindow' : Definition.window { d with name := name } = .ok window := hwindow
  rw [passesFor_iff, ← hname, classFile, hwindow']
  simp only [hparse]
  split
  · next heq => exact ⟨fun _ => heq, fun _ => ⟨file, rfl⟩⟩
  · next hne =>
    refine ⟨fun hfound => ?_, fun heq => absurd heq hne⟩
    obtain ⟨_, hfound⟩ := hfound
    cases hfound

end Definition

namespace Session

variable {s : Session} {id : LoaderId} {d : Definition} {c : DefinedClass}

/-- A class that is defined directly is read from a window that embeds a name, and the name passes
for the one asked for. -/
theorem exists_embedsName_of_define (h : (define id d s).1 = .ok c) : ∃ window payload,
    d.window = .ok window ∧ EmbedsName window payload ∧ PassesFor payload d.name ∧
      ∃ file, ClassFile.parse window = .ok file := by
  obtain ⟨-, hclass, -⟩ := define_of_ok h
  obtain ⟨-, hfile, -⟩ := Definition.classIn_eq_ok hclass
  obtain ⟨hwindow, hparse, hname⟩ := Definition.classFile_eq_ok hfile
  obtain ⟨payload, hembeds, hread⟩ := exists_embedsName_of_parse hparse
  exact ⟨_, payload, hwindow, hembeds, passesFor_iff.mpr (hread.symm.trans hname), _, hparse⟩

/-- A class is defined directly under exactly those names for which the name passes that its bytes
embed. -/
theorem define_checks_name (h : (define id d s).1 = .ok c) : ∃ window payload,
    d.window = .ok window ∧ EmbedsName window payload ∧
      (∀ found, EmbedsName window found → found = payload) ∧ PassesFor payload d.name ∧
      (∀ name, (∃ file, Definition.classFile { d with name := name } = .ok file) ↔
        PassesFor payload name) ∧
      (Utf8.replacement ∉ d.name.toList → ∃ text, payload = Utf8.encode text) ∧
      (IsPlain payload → payload = Utf8.encode (internal d.name)) ∧
      ∀ t other e k, (define other e t).1 = .ok k → e.name = d.name → ∃ view twin,
        e.window = .ok view ∧ EmbedsName view twin ∧
        internal (Utf8.decodeLossy twin) = internal (Utf8.decodeLossy payload) ∧
        (IsPlain payload → IsPlain twin → twin = payload) := by
  obtain ⟨window, payload, hwindow, hembeds, hpasses, hparse⟩ := exists_embedsName_of_define h
  refine ⟨window, payload, hwindow, hembeds, fun _ hfound => hfound.unique hembeds, hpasses,
    Definition.exists_classFile_iff hwindow hembeds hparse, hpasses.exists_text,
    hpasses.eq_encode, fun t other e k hdefine hname => ?_⟩
  obtain ⟨view, twin, hview, htwin, hpasses', -⟩ := exists_embedsName_of_define hdefine
  rw [hname] at hpasses'
  refine ⟨view, twin, hview, htwin, hpasses'.2.trans hpasses.2.symm, fun hplain hplain' => ?_⟩
  rw [hpasses'.eq_encode hplain', hpasses.eq_encode hplain]

/-- A class whose name constant is made of these bytes. -/
def bearing (payload : Bytes) (hfits : payload.length < UInt16.size) : Sentence where
  version := .standard
  count := 3
  items := [⟨.utf8, BigEndian.encode 2 payload.length ++ payload, payload, hfits, rfl⟩,
    ⟨.classRef, [0, 1], rfl⟩]
  accessFlags := ⟨0x21⟩
  thisSlot := 2
  superSlot := 0
  tail := List.replicate 8 0
  fills := rfl

theorem embedsName_bearing (payload : Bytes) (hfits : payload.length < UInt16.size) :
    EmbedsName (bearing payload hfits).bytes payload :=
  ⟨bearing payload hfits, 1, rfl, ⟨_, ⟨[_], [], rfl, rfl⟩, rfl, rfl⟩,
    ⟨_, ⟨[], [_], rfl, rfl⟩, rfl, rfl⟩⟩

/-- Defines such a class in a host that has none. -/
def defineBearing (name : String) (payload : Bytes) (hfits : payload.length < UInt16.size) :
    Outcome DefinedClass :=
  define ambient (.whole name (bearing payload hfits).bytes {}) (start .empty)

/-- The bytes of `a/B`. -/
def slashed : Bytes := [0x61, 0x2F, 0x42]

/-- The bytes of `a.B`. -/
def pointed : Bytes := [0x61, 0x2E, 0x42]

/-- The name is embedded as class files write it. -/
theorem define_checks_name_slashed : ∃ c,
    (defineBearing "a.B" slashed (by decide)).1 = .ok c ∧
      slashed = Utf8.encode (internal "a.B") := by
  have hnamed : (defineBearing "a.B" slashed (by decide)).1.map (·.file.name) = .ok "a.B" := by
    decide +kernel
  obtain ⟨c, hdefine, -⟩ := DefinedClass.exists_of_map_eq_ok hnamed
  obtain ⟨window, payload, hwindow, -, hunique, -, -, -, hplain, -⟩ := define_checks_name hdefine
  obtain rfl := Except.ok.inj ((Definition.window_whole _ _ _).symm.trans hwindow)
  obtain rfl := hunique slashed (embedsName_bearing slashed (by decide))
  exact ⟨c, hdefine, hplain ⟨"a/B", by decide, by decide⟩⟩

/-- A name that is embedded with a point, and one that is no text. -/
theorem other_names_pass :
    ((∃ c, (defineBearing "a.B" slashed (by decide)).1 = .ok c) ∧
      (∃ c, (defineBearing "a.B" pointed (by decide)).1 = .ok c) ∧
      EmbedsName (bearing pointed (by decide)).bytes pointed ∧
      pointed ≠ Utf8.encode (internal "a.B") ∧ pointed ≠ slashed) ∧
    (∃ c, (defineBearing "\uFFFD" [0xFF] (by decide)).1 = .ok c) ∧
      EmbedsName (bearing [0xFF] (by decide)).bytes [0xFF] ∧
      [0xFF] ≠ Utf8.encode (internal "\uFFFD") := by
  have hslashed : (defineBearing "a.B" slashed (by decide)).1.map (·.file.name) = .ok "a.B" := by
    decide +kernel
  have hpointed : (defineBearing "a.B" pointed (by decide)).1.map (·.file.name) = .ok "a.B" := by
    decide +kernel
  have hbroken : (defineBearing "\uFFFD" [0xFF] (by decide)).1.map (·.file.name) =
      .ok "\uFFFD" := by
    decide +kernel
  obtain ⟨c, hc, -⟩ := DefinedClass.exists_of_map_eq_ok hslashed
  obtain ⟨d, hd, -⟩ := DefinedClass.exists_of_map_eq_ok hpointed
  obtain ⟨e, he, -⟩ := DefinedClass.exists_of_map_eq_ok hbroken
  exact ⟨⟨⟨c, hc⟩, ⟨d, hd⟩, embedsName_bearing _ _, by decide, by decide⟩, ⟨e, he⟩,
    embedsName_bearing _ _, by decide⟩

end Session

end Understudy
