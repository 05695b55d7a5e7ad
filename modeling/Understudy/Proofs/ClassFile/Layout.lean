import Understudy.Proofs.ClassFile.ConstantPool
import Understudy.Proofs.ClassFile.Parsed

/-!
What a class file that can be read is made of. Its bytes are its parts put together in order, and
every choice of parts is a class file. An overwritten field is another choice of that part alone.
-/

namespace Understudy.ClassFile

open BigEndian Cursor

/-- The parts of a class file. The constants are those that the bytes of the pool are read as, and
the names are those that the two slots refer to. -/
structure Layout where
  version : ClassVersion
  pool : Bytes
  constants : List Constant
  accessFlags : AccessFlags
  thisSlot : UInt16
  superSlot : UInt16
  name : String
  superName : Option String
  tail : Bytes
  takes_pool : Takes ConstantPool.read pool constants
  className_eq : ConstantPool.className constants thisSlot.toNat = .ok name
  superName_eq : ConstantPool.className? constants superSlot.toNat = .ok superName

namespace Layout

/-- What follows the constant pool. -/
def behindPool (flags : AccessFlags) (thisSlot superSlot : UInt16) (tail : Bytes) : Bytes :=
  encode 2 flags.bits.toNat ++ (encode 2 thisSlot.toNat ++ (encode 2 superSlot.toNat ++ tail))

/-- The bytes of the parts in order. -/
def bytes (l : Layout) : Bytes :=
  encode 4 magic ++ (encode 2 l.version.minor.toNat ++ (encode 2 l.version.major.toNat ++
    (l.pool ++ behindPool l.accessFlags l.thisSlot l.superSlot l.tail)))

/-- The class file that the parts make. -/
def file (l : Layout) : ClassFile :=
  ⟨l.bytes, l.name, l.superName, l.version, l.accessFlags, 8 + l.pool.length⟩

end Layout

/-! ### The parts are read back -/

theorem readClass_behindPool (version : ClassVersion) (constants : List Constant) (position : Nat)
    (flags : AccessFlags) (thisSlot superSlot : UInt16) (tail : Bytes) :
    Header.readClass version constants
        ⟨position, Layout.behindPool flags thisSlot superSlot tail⟩ =
      .ok ⟨version, constants, position, flags, thisSlot.toNat, superSlot.toNat⟩ := by
  have hword : ∀ word : UInt16, Takes (number 2) (encode 2 word.toNat) word.toNat :=
    fun word => takes_encode word.toNat_lt
  simp only [Header.readClass, Layout.behindPool, hword _ _ _]
  simp

theorem readVersion_append (version : ClassVersion) {pool : Bytes} {constants : List Constant}
    (hpool : Takes ConstantPool.read pool constants) (position : Nat) (rest : Bytes) :
    Header.readVersion ⟨position, encode 2 version.minor.toNat ++
        (encode 2 version.major.toNat ++ (pool ++ rest))⟩ =
      Header.readClass version constants ⟨position + 4 + pool.length, rest⟩ := by
  have hword : ∀ word : UInt16, Takes (number 2) (encode 2 word.toNat) word.toNat :=
    fun word => takes_encode word.toNat_lt
  simp only [Header.readVersion, hword _ _ _, hpool _ _]
  simp [Nat.add_assoc]

namespace Layout

theorem read_bytes (l : Layout) :
    Header.read l.bytes = .ok ⟨l.version, l.constants, 8 + l.pool.length, l.accessFlags,
      l.thisSlot.toNat, l.superSlot.toNat⟩ := by
  have hmagic : Takes (number 4) (encode 4 magic) magic := takes_encode (by decide)
  rw [Header.read, Cursor.start, bytes, hmagic]
  simp only [if_true]
  rw [readVersion_append l.version l.takes_pool, readClass_behindPool, length_encode]

/-- The parts of a class file make a class file. -/
theorem parse_bytes (l : Layout) : parse l.bytes = .ok l.file := by
  rw [parse, read_bytes]
  simp only [l.className_eq, l.superName_eq]
  rfl

end Layout

/-! ### Whatever is read has parts -/

theorem exists_of_readClass {version : ClassVersion} {constants : List Constant} {c : Cursor}
    {header : Header} (h : Header.readClass version constants c = .ok header) :
    ∃ flags thisSlot superSlot tail, c.rest = Layout.behindPool flags thisSlot superSlot tail ∧
      header = ⟨version, constants, c.position, flags, thisSlot.toNat, superSlot.toNat⟩ := by
  rw [Header.readClass] at h
  split at h
  · cases h
  · next hflags =>
    split at h
    · cases h
    · next hthis =>
      split at h
      · cases h
      · next behind hsuper =>
        obtain ⟨flags, rfl, hrest, -⟩ := number_two_eq_ok hflags
        obtain ⟨thisSlot, rfl, hrestThis, -⟩ := number_two_eq_ok hthis
        obtain ⟨superSlot, rfl, hrestSuper, -⟩ := number_two_eq_ok hsuper
        refine ⟨⟨flags⟩, thisSlot, superSlot, behind.rest, ?_, ?_⟩
        · rw [hrest, hrestThis, hrestSuper, Layout.behindPool]
        · rw [← Except.ok.inj h]
          simp

theorem exists_of_readVersion {c : Cursor} {header : Header}
    (h : Header.readVersion c = .ok header) :
    ∃ version pool constants next, Takes ConstantPool.read pool constants ∧
      c.rest = encode 2 version.minor.toNat ++
        (encode 2 version.major.toNat ++ (pool ++ next.rest)) ∧
      next.position = c.position + 4 + pool.length ∧
      Header.readClass version constants next = .ok header := by
  rw [Header.readVersion] at h
  split at h
  · cases h
  · next hminor =>
    split at h
    · cases h
    · next hmajor =>
      split at h
      · cases h
      · next constants next hpool =>
        obtain ⟨minor, rfl, hrest, hposition⟩ := number_two_eq_ok hminor
        obtain ⟨major, rfl, hrestMajor, hpositionMajor⟩ := number_two_eq_ok hmajor
        obtain ⟨pool, htakes, hrestPool, hnext⟩ := ConstantPool.framed_read.exists_takes hpool
        refine ⟨⟨major, minor⟩, pool, constants, next, htakes, ?_, ?_, ?_⟩
        · rw [hrest, hrestMajor, hrestPool]
        · rw [hnext, hpositionMajor, hposition]
        · simpa using h

theorem exists_of_read {bytes : Bytes} {header : Header} (h : Header.read bytes = .ok header) :
    ∃ version pool constants flags thisSlot superSlot tail,
      Takes ConstantPool.read pool constants ∧
      bytes = encode 4 magic ++ (encode 2 version.minor.toNat ++ (encode 2 version.major.toNat ++
        (pool ++ Layout.behindPool flags thisSlot superSlot tail))) ∧
      header = ⟨version, constants, 8 + pool.length, flags, thisSlot.toNat, superSlot.toNat⟩ := by
  rw [Header.read] at h
  split at h
  · cases h
  · next word next hword =>
    split at h
    · next hmagic =>
      obtain ⟨used, hlength, hvalue, hrest, hposition⟩ := number_eq_ok hword
      obtain ⟨version, pool, constants, behind, htakes, hrestVersion, hpositionPool, hclass⟩ :=
        exists_of_readVersion h
      obtain ⟨flags, thisSlot, superSlot, tail, hrestClass, hheader⟩ := exists_of_readClass hclass
      refine ⟨version, pool, constants, flags, thisSlot, superSlot, tail, htakes, ?_, ?_⟩
      · have hused : encode 4 magic = used := by rw [← hmagic, ← hvalue, encode_decode hlength]
        rw [hused, ← hrestClass, ← hrestVersion, ← hrest, Cursor.start]
      · rw [hheader, hpositionPool, hposition, Cursor.start]
    · cases h

namespace Layout

/-- Every class file that was read is made of parts. -/
theorem exists_of_parse {bytes : Bytes} {file : ClassFile} (h : parse bytes = .ok file) :
    ∃ l : Layout, l.file = file := by
  obtain ⟨header, hread, hname, hsuper, hfile⟩ := parse_eq_ok h
  obtain ⟨version, pool, constants, flags, thisSlot, superSlot, tail, htakes, rfl, rfl⟩ :=
    exists_of_read hread
  exact ⟨⟨version, pool, constants, flags, thisSlot, superSlot, file.name, file.superName, tail,
    htakes, hname, hsuper⟩, hfile.symm⟩

/-- A class file tells what its bytes tell exactly when it is made of parts. -/
theorem parse_bytes_self_iff {file : ClassFile} :
    parse file.bytes = .ok file ↔ ∃ l : Layout, l.file = file := by
  constructor
  · exact exists_of_parse
  · rintro ⟨l, rfl⟩
    exact l.parse_bytes

/-! ### A field that is overwritten -/

/-- Other access flags are another choice of that part. -/
theorem setAccessFlags_file (l : Layout) (flags : AccessFlags) :
    l.file.setAccessFlags flags = (.ok (), { l with accessFlags := flags }.file) := by
  have hlength : (encode 4 magic ++ (encode 2 l.version.minor.toNat ++
      (encode 2 l.version.major.toNat ++ l.pool))).length = 8 + l.pool.length := by
    simp only [List.length_append, length_encode]
    omega
  have hwrite := writeAt_append
    (encode 2 l.thisSlot.toNat ++ (encode 2 l.superSlot.toNat ++ l.tail)) flags.bits.toNat
    hlength (length_encode 2 l.accessFlags.bits.toNat)
  simp only [List.append_assoc] at hwrite
  rw [setAccessFlags, file, bytes, behindPool, hwrite]
  rfl

/-- Another version is another choice of that part. -/
theorem setVersion_file (l : Layout) (version : ClassVersion) :
    l.file.setVersion version = (.ok (), { l with version := version }.file) := by
  have hlength : (encode 4 magic ++ encode 2 version.minor.toNat).length = versionOffset + 2 := by
    rw [List.length_append, length_encode, length_encode, versionOffset]
  have hminor := writeAt_append
    (encode 2 l.version.major.toNat ++
      (l.pool ++ behindPool l.accessFlags l.thisSlot l.superSlot l.tail)) version.minor.toNat
    (length_encode 4 magic) (length_encode 2 l.version.minor.toNat)
  have hmajor := writeAt_append
    (l.pool ++ behindPool l.accessFlags l.thisSlot l.superSlot l.tail) version.major.toNat
    hlength (length_encode 2 l.version.major.toNat)
  rw [List.append_assoc, List.append_assoc] at hmajor
  simp only [setVersion, file, bytes, versionOffset, hminor]
  rw [versionOffset] at hmajor
  rw [hmajor]

end Layout

end Understudy.ClassFile
