import Understudy.ClassFile.Stub
import Understudy.Proofs.ClassFile.Layout

/-!
Class files cut short. A class file that is read stays what it is with any bytes behind it, and
bytes that are malformed stay malformed in the same way; only a file cut short can be mended by the
bytes that are missing. Cut behind its header, which ends six bytes behind the place of the flags, a
class file reads the same, and cut within its header it is told to be cut short and nothing else.
Main statement: `parse_append_or_cut`.
-/

namespace Understudy.ClassFile

open BigEndian Cursor

/-! ### The header as one step -/

namespace Header

/-- Reads the flags and the two slots that follow a constant pool. -/
def classStep (version : ClassVersion) (constants : List Constant) (c : Cursor) : Answer Header :=
  andThen (number 2) (fun flags => andThen (number 2) fun thisSlot =>
    Cursor.map (fun superSlot => ⟨version, constants, c.position, ⟨flags.toUInt16⟩, thisSlot,
      superSlot⟩) (number 2)) c

/-- Reads the version, the constant pool and what follows it. -/
def versionStep : Cursor → Answer Header :=
  andThen (number 2) fun minor => andThen (number 2) fun major =>
    andThen ConstantPool.read (classStep ⟨major.toUInt16, minor.toUInt16⟩)

/-- Reads what follows a word in the place of the magic number. -/
def behindMagic (word : Nat) : Cursor → Answer Header :=
  if word = magic then versionStep else fun c => (.error (.malformed (.badMagic word) none), c)

theorem readClass_eq (version : ClassVersion) (constants : List Constant) (c : Cursor) :
    readClass version constants c = (classStep version constants c).1 := by
  simp only [readClass, classStep, Cursor.map, Cursor.andThen]
  rcases c.number 2 with ⟨_ | flags, afterFlags⟩
  · rfl
  · rcases hthis : afterFlags.number 2 with ⟨_ | thisSlot, afterThis⟩
    · simp only [hthis]
    · rcases hsuper : afterThis.number 2 with ⟨_ | superSlot, next⟩ <;> simp only [hthis, hsuper]

theorem readVersion_eq (c : Cursor) : readVersion c = (versionStep c).1 := by
  simp only [readVersion, versionStep, Cursor.andThen]
  rcases c.number 2 with ⟨_ | minor, afterMinor⟩
  · rfl
  · rcases hmajor : afterMinor.number 2 with ⟨_ | major, afterMajor⟩
    · simp only [hmajor]
    · rcases hpool : ConstantPool.read afterMajor with ⟨_ | constants, next⟩
      · simp only [hmajor, hpool]
      · simp only [hmajor, hpool, readClass_eq]

theorem read_eq (bytes : Bytes) :
    read bytes = (andThen (number 4) behindMagic (Cursor.start bytes)).1 := by
  rw [read, Cursor.andThen]
  rcases (Cursor.start bytes).number 4 with ⟨_ | word, next⟩
  · rfl
  · simp only [behindMagic]
    split
    · exact readVersion_eq next
    · rfl

theorem steady_classStep (version : ClassVersion) (constants : List Constant) :
    Steady (classStep version constants) := by
  intro c more
  -- the position is part of the answer, and more bytes do not move it
  have hfields : Steady (andThen (number 2) (fun flags => andThen (number 2) fun thisSlot =>
      Cursor.map (fun superSlot => Header.mk version constants c.position ⟨flags.toUInt16⟩ thisSlot
        superSlot) (number 2))) :=
    (steady_number 2).andThen fun _ => (steady_number 2).andThen fun _ => (steady_number 2).map _
  exact hfields c more

theorem steady_versionStep : Steady versionStep :=
  (steady_number 2).andThen fun _ => (steady_number 2).andThen fun _ =>
    ConstantPool.steady_read.andThen fun _ => steady_classStep _ _

theorem steady_behindMagic (word : Nat) : Steady (behindMagic word) := by
  rw [behindMagic]
  split
  · exact steady_versionStep
  · exact steady_error _

theorem read_append (d x : Bytes) :
    read d = .error .outOfBounds ∨ read (d ++ x) = read d := by
  rw [read_eq, read_eq, show Cursor.start (d ++ x) = (Cursor.start d).extend x from rfl]
  rcases (steady_number 4).andThen steady_behindMagic (Cursor.start d) x with hlacks | hsame
  · exact .inl hlacks
  · exact .inr (by rw [hsame])

end Header

/-! ### Whole class files -/

/-- Unless bytes are missing, more of them change nothing but what is carried along. -/
theorem parse_append (d x : Bytes) : parse d = .error .outOfBounds ∨
    parse (d ++ x) = (parse d).map ({ · with bytes := d ++ x }) := by
  simp only [parse]
  rcases Header.read_append d x with hlacks | hsame
  · exact .inl (by rw [hlacks])
  · refine .inr ?_
    rw [hsame]
    cases Header.read d with
    | error e => rfl
    | ok header =>
      cases hname : ConstantPool.className header.constants header.thisSlot with
      | error e => simp only [hname, Except.map]
      | ok name =>
        cases hsuper : ConstantPool.className? header.constants header.superSlot with
        | error e => simp only [hname, hsuper, Except.map]
        | ok superName => simp only [hname, hsuper, Except.map]

theorem parse_append_of_ok {d : Bytes} {file : ClassFile} (h : parse d = .ok file) (x : Bytes) :
    parse (d ++ x) = .ok { file with bytes := d ++ x } := by
  rcases parse_append d x with hlacks | hsame
  · rw [h] at hlacks
    cases hlacks
  · rw [hsame, h]
    rfl

theorem parse_append_of_error {d : Bytes} {e : Error} (h : parse d = .error e)
    (he : e ≠ .outOfBounds) (x : Bytes) : parse (d ++ x) = .error e := by
  rcases parse_append d x with hlacks | hsame
  · rw [h] at hlacks
    exact absurd (Except.error.inj hlacks) he
  · rw [hsame, h]
    rfl

/-- The header ends six bytes behind the place of its flags, and nothing behind it is needed. -/
theorem exists_header_of_parse {d : Bytes} {file : ClassFile} (h : parse d = .ok file) :
    ∃ front tail, d = front ++ tail ∧ front.length = file.flagsOffset + 6 ∧
      parse front = .ok { file with bytes := front } := by
  obtain ⟨l, rfl⟩ := Layout.exists_of_parse h
  obtain rfl : l.bytes = d := bytes_of_parse h
  let bare : Layout := { l with tail := [] }
  refine ⟨bare.bytes, l.tail, ?_, ?_, bare.parse_bytes⟩
  · simp [bare, Layout.bytes, Layout.behindPool]
  · simp [bare, Layout.bytes, Layout.behindPool, Layout.file]
    omega

/-- A front of a class file that does not hold the whole header is cut short. -/
theorem parse_of_isPrefix_of_lt {d p : Bytes} {file : ClassFile} (h : parse d = .ok file)
    (hp : p <+: d) (hshort : p.length < file.flagsOffset + 6) : parse p = .error .outOfBounds := by
  obtain ⟨rest, rfl⟩ := hp
  cases hparse : parse p with
  | error e =>
    by_cases he : e = .outOfBounds
    · rw [he]
    · rw [parse_append_of_error hparse he rest] at h
      cases h
  | ok cut =>
    -- it would have the same header, and so be long enough
    rw [parse_append_of_ok hparse rest] at h
    obtain rfl := Except.ok.inj h
    obtain ⟨front, tail, hfront, hlength, -⟩ := exists_header_of_parse hparse
    have hlong : front.length ≤ p.length := by
      rw [hfront, List.length_append]
      omega
    simp only at hshort
    omega

/-- A front of a class file that holds the whole header has the same header. -/
theorem parse_of_isPrefix_of_le {d p : Bytes} {file : ClassFile} (h : parse d = .ok file)
    (hp : p <+: d) (hlong : file.flagsOffset + 6 ≤ p.length) :
    parse p = .ok { file with bytes := p } := by
  obtain ⟨front, tail, rfl, hlength, hfront⟩ := exists_header_of_parse h
  obtain ⟨rest, rfl⟩ := List.prefix_of_prefix_length_le (List.prefix_append front tail) hp
    (by omega)
  exact parse_append_of_ok hfront rest

/-- What comes of reading bytes with more behind them, and of a class file that is cut down to one
of its fronts. -/
theorem parse_append_or_cut (d x : Bytes) :
    (∀ file, parse d = .ok file → parse (d ++ x) = .ok { file with bytes := d ++ x }) ∧
    (∀ what place, parse d = .error (.malformed what place) →
      parse (d ++ x) = .error (.malformed what place)) ∧
    (∀ e file, parse d = .error e → parse (d ++ x) = .ok file → e = .outOfBounds) ∧
    ∀ file, parse d = .ok file → ∀ p, p <+: d →
      (p.length < file.flagsOffset + 6 → parse p = .error .outOfBounds) ∧
      (file.flagsOffset + 6 ≤ p.length → parse p = .ok { file with bytes := p }) := by
  refine ⟨fun file h => parse_append_of_ok h x, fun what place h => ?_, fun e file h hwhole => ?_,
    fun file h p hp => ⟨parse_of_isPrefix_of_lt h hp, parse_of_isPrefix_of_le h hp⟩⟩
  · exact parse_append_of_error h nofun x
  · by_cases he : e = .outOfBounds
    · exact he
    · rw [parse_append_of_error h he x] at hwhole
      cases hwhole

/-- A stub, cut just behind its header and one byte before; and bytes that no class file begins
with. -/
theorem parse_append_or_cut_stub :
    let d := Stub.encode { name := "A" }
    (∃ file, parse d = .ok file ∧ parse (d.take 44) = .error .outOfBounds ∧
      parse (d.take 45) = .ok { file with bytes := d.take 45 }) ∧
    ∀ x, parse ([0xCA, 0xFE, 0xBA, 0xBB] ++ x) =
      .error (.malformed (.badMagic 0xCAFEBABB) none) := by
  intro d
  constructor
  · have hread : (parse d).toOption.map (·.flagsOffset) = some 39 := by decide +kernel
    cases hfile : parse d with
    | error e =>
      rw [hfile] at hread
      cases hread
    | ok file =>
      rw [hfile] at hread
      have hoffset : file.flagsOffset = 39 := Option.some.inj hread
      have hcut := (parse_append_or_cut d []).2.2.2 file hfile
      have hlength : d.length = 53 := by decide +kernel
      have hfront : ∀ n, d.take n <+: d := fun n => List.take_prefix n d
      refine ⟨file, rfl, (hcut _ (hfront 44)).1 ?_, (hcut _ (hfront 45)).2 ?_⟩
      · rw [List.length_take, hlength, hoffset]
        decide
      · rw [List.length_take, hlength, hoffset]
        decide
  · intro x
    exact (parse_append_or_cut _ x).2.1 _ _ rfl

end Understudy.ClassFile
