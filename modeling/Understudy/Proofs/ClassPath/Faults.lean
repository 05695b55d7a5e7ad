import Understudy.ClassPath.Basic

/-!
What can go wrong while a class is looked for along a class path: a file cannot be read, or what was
read is no class file. No such failure says that the class is missing or that it is there already;
those two are said by loaders alone. Main statement: `ClassPath.ofReading_of_find`.
-/

namespace Understudy

/-- A failure that tells of bytes that are no class file, or of a file that cannot be read. -/
inductive Error.OfReading : Error → Prop
  | malformed (what : Malformation) (place : Option ReportedAt) : OfReading (.malformed what place)
  | outOfBounds : OfReading .outOfBounds
  | file (fault : FileFault) : OfReading (.file fault)

theorem Error.OfReading.isNotFound_eq {e : Error} (h : e.OfReading) : e.isNotFound = false := by
  cases h <;> rfl

theorem Error.OfReading.ne_duplicateDefinition {e : Error} (h : e.OfReading) (name : String) :
    e ≠ .duplicateDefinition name := by
  cases h <;> nofun

variable {e : Error}

/-! ### Bytes -/

namespace Cursor

variable {c next : Cursor} {n : Nat}

theorem ofReading_of_take (h : c.take n = (.error e, next)) : e.OfReading := by
  rw [take_eq] at h
  split at h
  · cases h
  · cases h
    exact .outOfBounds

theorem ofReading_of_skip (h : c.skip n = (.error e, next)) : e.OfReading := by
  rw [skip] at h
  split at h
  · cases h
  · next htake =>
    cases h
    exact ofReading_of_take htake

theorem ofReading_of_number (h : c.number n = (.error e, next)) : e.OfReading := by
  rw [number] at h
  split at h
  · cases h
  · next htake =>
    cases h
    exact ofReading_of_take htake

theorem ofReading_of_counted (h : c.counted = (.error e, next)) : e.OfReading := by
  rw [counted] at h
  split at h
  · exact ofReading_of_take h
  · next hnumber =>
    cases h
    exact ofReading_of_number hnumber

end Cursor

/-! ### Class files -/

section
variable {c next : Cursor}

theorem Payload.ofReading_of_read {payload : Payload} (h : payload.read c = (.error e, next)) :
    e.OfReading := by
  cases payload with
  | text =>
    simp only [read] at h
    split at h
    · cases h
    · next hcounted =>
      cases h
      exact Cursor.ofReading_of_counted hcounted
  | classRef =>
    simp only [read] at h
    split at h
    · cases h
    · next hnumber =>
      cases h
      exact Cursor.ofReading_of_number hnumber
  | fixed size =>
    simp only [read] at h
    split at h
    · cases h
    · next hskip =>
      cases h
      exact Cursor.ofReading_of_skip hskip
  | wide size =>
    simp only [read] at h
    split at h
    · cases h
    · next hskip =>
      cases h
      exact Cursor.ofReading_of_skip hskip

namespace ConstantPool

theorem ofReading_of_readConstant {slot : Nat} (h : readConstant slot c = (.error e, next)) :
    e.OfReading := by
  rw [readConstant] at h
  split at h
  · next hnumber =>
    cases h
    exact Cursor.ofReading_of_number hnumber
  · split at h
    · cases h
      exact .malformed _ _
    · split at h
      · cases h
      · next hread =>
        cases h
        exact Payload.ofReading_of_read hread

/-- By induction on the slots that are missing, of which a wide constant fills two. -/
theorem ofReading_of_readSlots {count missing : Nat} {filled : List Constant}
    (h : readSlots count missing filled c = (.error e, next)) : e.OfReading := by
  fun_induction readSlots count missing filled c with
  | case1 => cases h
  | case2 _ _ _ _ _ hread =>
    cases h
    exact ofReading_of_readConstant hread
  | case3 =>
    cases h
    exact .malformed _ _
  | case4 _ _ _ _ _ _ _ ih => exact ih h
  | case5 _ _ _ _ _ _ _ _ ih => exact ih h

theorem ofReading_of_read (h : ConstantPool.read c = (.error e, next)) : e.OfReading := by
  rw [ConstantPool.read] at h
  split at h
  · next hnumber =>
    cases h
    exact Cursor.ofReading_of_number hnumber
  · cases h
    exact .malformed _ _
  · exact ofReading_of_readSlots h

theorem ofReading_of_className {pool : List Constant} {slot : Nat}
    (h : className pool slot = .error e) : e.OfReading := by
  rw [className] at h
  split at h
  · split at h
    · cases h
    · cases h
      exact .malformed _ _
  · cases h
    exact .malformed _ _

theorem ofReading_of_className? {pool : List Constant} {slot : Nat}
    (h : className? pool slot = .error e) : e.OfReading := by
  rw [className?] at h
  split at h
  · cases h
  · cases hname : className pool slot with
    | error cause =>
      rw [hname] at h
      cases h
      exact ofReading_of_className hname
    | ok name =>
      rw [hname] at h
      cases h

end ConstantPool

namespace ClassFile

theorem Header.ofReading_of_readClass {version : ClassVersion} {constants : List Constant}
    (h : Header.readClass version constants c = .error e) : e.OfReading := by
  rw [Header.readClass] at h
  split at h
  · next hflags =>
    cases h
    exact Cursor.ofReading_of_number hflags
  · split at h
    · next hthis =>
      cases h
      exact Cursor.ofReading_of_number hthis
    · split at h
      · next hsuper =>
        cases h
        exact Cursor.ofReading_of_number hsuper
      · cases h

theorem Header.ofReading_of_readVersion (h : Header.readVersion c = .error e) : e.OfReading := by
  rw [Header.readVersion] at h
  split at h
  · next hminor =>
    cases h
    exact Cursor.ofReading_of_number hminor
  · split at h
    · next hmajor =>
      cases h
      exact Cursor.ofReading_of_number hmajor
    · split at h
      · next hpool =>
        cases h
        exact ConstantPool.ofReading_of_read hpool
      · exact Header.ofReading_of_readClass h

theorem Header.ofReading_of_read {bytes : Bytes} (h : Header.read bytes = .error e) :
    e.OfReading := by
  rw [Header.read] at h
  split at h
  · next hmagic =>
    cases h
    exact Cursor.ofReading_of_number hmagic
  · split at h
    · exact Header.ofReading_of_readVersion h
    · cases h
      exact .malformed _ _

theorem ofReading_of_parse {bytes : Bytes} (h : parse bytes = .error e) : e.OfReading := by
  rw [parse] at h
  split at h
  · next hheader =>
    cases h
    exact Header.ofReading_of_read hheader
  · split at h
    · next hname =>
      cases h
      exact ConstantPool.ofReading_of_className hname
    · split at h
      · next hsuper =>
        cases h
        exact ConstantPool.ofReading_of_className? hsuper
      · cases h

end ClassFile

end

/-! ### Class paths -/

theorem Entry.exists_fault_of_classBytes {tree : FileTree} {entry : Entry} {name : String}
    (h : entry.classBytes tree name = .error e) : ∃ fault, e = .file fault := by
  rw [classBytes] at h
  split at h
  · simp only at h
    split at h
    · split at h
      · cases h
      · cases h
      · next fault _ _ =>
        cases h
        exact ⟨fault, rfl⟩
    · cases h
  · cases h
  · cases h

namespace ClassPath

theorem ofReading_of_findBytes {tree : FileTree} {name : String} {entries : List Entry}
    (h : findBytes tree name entries = .error e) : e.OfReading := by
  induction entries with
  | nil => cases h
  | cons entry rest ih =>
    rw [findBytes] at h
    split at h
    · exact ih h
    · obtain ⟨fault, rfl⟩ := Entry.exists_fault_of_classBytes h
      exact .file fault

/-- A class path that fails to find a class could not read a file, or what it read is no class
file. -/
theorem ofReading_of_find {tree : FileTree} {cp : ClassPath} {name : String}
    (h : cp.find tree name = .error e) : e.OfReading := by
  rw [find] at h
  split at h
  · next hbytes =>
    cases h
    exact ofReading_of_findBytes hbytes
  · cases h
  · next bytes _ =>
    cases hparse : ClassFile.parse bytes with
    | error cause =>
      rw [hparse] at h
      cases h
      exact ClassFile.ofReading_of_parse hparse
    | ok file =>
      rw [hparse] at h
      cases h

end ClassPath

end Understudy
