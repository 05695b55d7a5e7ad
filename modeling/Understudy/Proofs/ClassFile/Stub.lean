import Understudy.ClassFile.Stub
import Understudy.Proofs.ClassFile.Grammar
import Understudy.Proofs.ClassFile.Name
import Understudy.Proofs.Text.LossyUtf8

/-!
Stubs that are read. The bytes of a stub are a class file with the version and the flags of the stub
and with its two names, as far as a text constant can hold them. A name of up to 65535 bytes fits as
a whole, and is read with points for slashes. Of a longer one the longest front is read that fits,
followed by one replacement exactly where that front leaves room. So stubs whose names fit, and are
written without slashes, are told apart by their bytes. Main statement: `parse_encode`.
-/

namespace Understudy

/-! ### Names as long written as read -/

namespace ClassName

/-- A character is written in as many bytes as the one that it is replaced by. -/
theorem utf8Size_replace {old new : Char} (h : new.utf8Size = old.utf8Size) (c : Char) :
    (if c = old then new else c).utf8Size = c.utf8Size := by
  split
  · next heq => rw [heq, h]
  · rfl

theorem length_encode_replaceChar {old new : Char} (h : new.utf8Size = old.utf8Size)
    (text : String) :
    (Utf8.encode (replaceChar old new text)).length = (Utf8.encode text).length := by
  rw [Utf8.length_encode, Utf8.length_encode, replaceChar, String.toList_ofList,
    Utf8.size_map (utf8Size_replace h)]

/-- A text that is cut is cut alike with the one character or the other. -/
theorem replaceChar_decodeLossy_take {old new : Char} (h : new.utf8Size = old.utf8Size)
    (hold : old ≠ Utf8.replacement) (room : Nat) (text : String) :
    replaceChar old new (Utf8.decodeLossy ((Utf8.encode text).take room)) =
      String.ofList (Utf8.cutAt room (replaceChar old new text).toList) := by
  rw [Utf8.decodeLossy_take_encode, replaceChar, replaceChar, String.toList_ofList,
    String.toList_ofList, Utf8.cutAt_map (utf8Size_replace h) (if_neg hold.symm)]

end ClassName

namespace Stub

open Grammar

/-! ### What is left of a name -/

/-- What a name in a stub is read as. -/
def fit (name : String) : String :=
  String.ofList (Utf8.cutAt maxTextLength (ClassName.binary name).toList)

theorem length_encode_binary (name : String) :
    (Utf8.encode (ClassName.binary name)).length = (Utf8.encode name).length :=
  ClassName.length_encode_replaceChar (show Char.utf8Size '.' = Char.utf8Size '/' from rfl) name

/-- A name that a text constant can hold is read as a whole. -/
theorem fit_of_le {name : String} (h : (Utf8.encode name).length ≤ maxTextLength) :
    fit name = ClassName.binary name := by
  rw [← length_encode_binary, Utf8.length_encode] at h
  rw [fit, Utf8.cutAt_of_size_le h, String.ofList_toList]

/-- Of a longer name the characters that fit are read, and a replacement if they leave room. -/
theorem exists_toList_fit_of_lt {name : String} (h : maxTextLength < (Utf8.encode name).length) :
    ∃ kept, Utf8.IsLongestFront maxTextLength (ClassName.binary name).toList kept ∧
      (fit name).toList =
        kept ++ if Utf8.size kept < maxTextLength then [Utf8.replacement] else [] := by
  rw [← length_encode_binary, Utf8.length_encode] at h
  refine ⟨_, Utf8.isLongestFront_front _ _, ?_⟩
  rw [fit, String.toList_ofList, Utf8.cutAt, Nat.min_eq_left (Nat.le_of_lt h)]

theorem fit_eq (name : String) : fit name = ClassName.binary
    (Utf8.decodeLossy ((Utf8.encode (ClassName.internal name)).take maxTextLength)) := by
  rw [ClassName.binary, ClassName.replaceChar_decodeLossy_take
    (show Char.utf8Size '.' = Char.utf8Size '/' from rfl) (by decide), ← ClassName.binary,
    ClassName.binary_internal, fit]

/-! ### The stub as a sentence of the grammar -/

/-- A text constant. -/
def textItem (text : String) : Item where
  tag := .utf8
  payload := BigEndian.encode 2 ((Utf8.encode text).take maxTextLength).length ++
    (Utf8.encode text).take maxTextLength
  admits := by
    refine ⟨_, ?_, rfl⟩
    rw [List.length_take, maxTextLength, UInt16.size]
    omega

/-- A constant that refers to the class named by a slot. -/
def classItem (nameSlot : Nat) : Item where
  tag := .classRef
  payload := BigEndian.encode 2 nameSlot
  admits := BigEndian.length_encode 2 nameSlot

/-- A stub as it is written. -/
def sentence (stub : Stub) : Sentence where
  version := stub.version
  count := 5
  items := [textItem (ClassName.internal stub.name), classItem 1,
    textItem (ClassName.internal stub.superName), classItem 3]
  accessFlags := stub.accessFlags
  thisSlot := 2
  superSlot := 4
  tail := List.replicate 8 0
  fills := rfl

theorem bytes_sentence (stub : Stub) : stub.sentence.bytes = stub.encode := by
  have hmagic : BigEndian.encode 4 ClassFile.magic = [0xCA, 0xFE, 0xBA, 0xBE] := rfl
  rw [Sentence.bytes, Stub.encode, hmagic]
  simp [Sentence.pool, sentence, encodeText, encodeClassRef, Item.bytes, textItem, classItem,
    Tag.byte]

theorem namesClass_name (stub : Stub) :
    NamesClass stub.sentence.items stub.sentence.thisSlot (fit stub.name) := by
  refine ⟨1, (Utf8.encode (ClassName.internal stub.name)).take maxTextLength,
    ⟨classItem 1, ⟨[_], _, rfl, rfl⟩, rfl, rfl⟩, ⟨textItem _, ⟨[], _, rfl, rfl⟩, rfl, rfl⟩, ?_⟩
  exact fit_eq stub.name

theorem namesClass_superName (stub : Stub) :
    NamesClass stub.sentence.items stub.sentence.superSlot (fit stub.superName) := by
  refine ⟨3, (Utf8.encode (ClassName.internal stub.superName)).take maxTextLength,
    ⟨classItem 3, ⟨[_, _, _], _, rfl, rfl⟩, rfl, rfl⟩,
    ⟨textItem _, ⟨[_, _], _, rfl, rfl⟩, rfl, rfl⟩, ?_⟩
  exact fit_eq stub.superName

/-- The file that the bytes of a stub are. -/
def file (stub : Stub) : ClassFile :=
  stub.sentence.file (fit stub.name) (some (fit stub.superName))

@[simp]
theorem name_file (stub : Stub) : stub.file.name = fit stub.name := rfl

@[simp]
theorem superName_file (stub : Stub) : stub.file.superName = some (fit stub.superName) := rfl

@[simp]
theorem version_file (stub : Stub) : stub.file.version = stub.version := rfl

@[simp]
theorem accessFlags_file (stub : Stub) : stub.file.accessFlags = stub.accessFlags := rfl

theorem parse_encode_eq (stub : Stub) : ClassFile.parse stub.encode = .ok stub.file :=
  parse_eq_ok_iff_exists.mpr ⟨stub.sentence, fit stub.name, some (fit stub.superName),
    stub.bytes_sentence, stub.namesClass_name,
    ⟨show (4 : UInt16) ≠ 0 by decide, stub.namesClass_superName⟩, rfl⟩

/-! ### Stubs told apart -/

/-- A stub whose names fit into text constants and are written with points. -/
structure IsPlain (stub : Stub) : Prop where
  name_fits : (Utf8.encode stub.name).length ≤ maxTextLength
  superName_fits : (Utf8.encode stub.superName).length ≤ maxTextLength
  name_noSlash : '/' ∉ stub.name.toList
  superName_noSlash : '/' ∉ stub.superName.toList

theorem fit_of_noSlash {name : String} (hfits : (Utf8.encode name).length ≤ maxTextLength)
    (hnoSlash : '/' ∉ name.toList) : fit name = name := by
  rw [fit_of_le hfits, ClassName.binary_of_noSlash hnoSlash]

/-- Reading the bytes of both stubs gives the one file, and so the one stub. -/
theorem encode_injective_of_isPlain {stub other : Stub} (hstub : stub.IsPlain)
    (hother : other.IsPlain) (h : stub.encode = other.encode) : stub = other := by
  have hfile : stub.file = other.file := by
    have hread := stub.parse_encode_eq
    rw [h, other.parse_encode_eq] at hread
    exact (Except.ok.inj hread).symm
  have hname : stub.name = other.name := by
    have hfit := congrArg ClassFile.name hfile
    rwa [name_file, name_file, fit_of_noSlash hstub.name_fits hstub.name_noSlash,
      fit_of_noSlash hother.name_fits hother.name_noSlash] at hfit
  have hsuperName : stub.superName = other.superName := by
    have hfit := congrArg ClassFile.superName hfile
    rw [superName_file, superName_file,
      fit_of_noSlash hstub.superName_fits hstub.superName_noSlash,
      fit_of_noSlash hother.superName_fits hother.superName_noSlash] at hfit
    exact Option.some.inj hfit
  have hflags := congrArg ClassFile.accessFlags hfile
  have hversion := congrArg ClassFile.version hfile
  rw [accessFlags_file, accessFlags_file] at hflags
  rw [version_file, version_file] at hversion
  cases stub
  cases other
  simp only [mk.injEq]
  exact ⟨hname, hsuperName, hflags, hversion⟩

/-- What the bytes of a stub are read as, and which stubs they tell apart. -/
theorem parse_encode (stub : Stub) :
    (∃ file, ClassFile.parse stub.encode = .ok file ∧ file.name = fit stub.name ∧
      file.superName = some (fit stub.superName) ∧ file.version = stub.version ∧
      file.accessFlags = stub.accessFlags) ∧
    (∀ name : String,
      ((Utf8.encode name).length ≤ 65535 → fit name = ClassName.binary name) ∧
      (65535 < (Utf8.encode name).length → ∃ kept,
        Utf8.IsLongestFront 65535 (ClassName.binary name).toList kept ∧
        (fit name).toList =
          kept ++ if Utf8.size kept < 65535 then [Utf8.replacement] else [])) ∧
    (stub.IsPlain → ∀ other : Stub, other.IsPlain → stub.encode = other.encode → stub = other) :=
  ⟨⟨stub.file, stub.parse_encode_eq, stub.name_file, stub.superName_file, stub.version_file,
      stub.accessFlags_file⟩,
    fun _ => ⟨fit_of_le, exists_toList_fit_of_lt⟩,
    fun hstub _ hother h => encode_injective_of_isPlain hstub hother h⟩

/-- A name of 65534 characters of one byte and one of two is cut inside the last one; stubs of other
names have other bytes. -/
theorem parse_encode_cut :
    (∃ file,
      ClassFile.parse (encode { name := String.ofList (List.replicate 65534 'a' ++ ['é']) }) =
        .ok file ∧
      file.name.toList = List.replicate 65534 'a' ++ [Utf8.replacement]) ∧
    encode { name := "A" } ≠ encode { name := "B" } := by
  constructor
  · obtain ⟨⟨file, hparse, hname, -⟩, hfit, -⟩ :=
      parse_encode { name := String.ofList (List.replicate 65534 'a' ++ ['é']) }
    have hbinary : (ClassName.binary (String.ofList (List.replicate 65534 'a' ++ ['é']))).toList =
        List.replicate 65534 'a' ++ ['é'] := by
      rw [ClassName.binary, ClassName.replaceChar_of_notMem, String.toList_ofList]
      rw [String.toList_ofList, List.mem_append, List.mem_replicate]
      rintro (⟨-, hletter⟩ | hlast)
      · exact absurd hletter (by decide)
      · exact absurd hlast (by decide)
    have hsize : Utf8.size (List.replicate 65534 'a') = 65534 := Utf8.size_replicate 65534 rfl
    have hlong : 65535 <
        (Utf8.encode (String.ofList (List.replicate 65534 'a' ++ ['é']))).length := by
      rw [Utf8.length_encode, String.toList_ofList, Utf8.size_append, hsize]
      decide
    obtain ⟨kept, hkept, hread⟩ := (hfit _).2 hlong
    have hfront : kept = List.replicate 65534 'a' := by
      rw [hbinary] at hkept
      rw [hkept.eq_front, Utf8.front_append (by omega), hsize]
      exact List.append_nil _
    refine ⟨file, hparse, ?_⟩
    rw [hname, hread, hfront, hsize, if_pos (by decide)]
  · intro h
    have hplain : ∀ name : String, name = "A" ∨ name = "B" → IsPlain { name := name } := by
      rintro _ (rfl | rfl) <;> exact ⟨by decide, by decide, by decide, by decide⟩
    have hsame := (parse_encode { name := "A" }).2.2 (hplain "A" (.inl rfl)) { name := "B" }
      (hplain "B" (.inr rfl)) h
    exact absurd (congrArg name hsame) (by decide)

end Stub

end Understudy
