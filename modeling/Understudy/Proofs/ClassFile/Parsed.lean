import Understudy.ClassFile.Basic

/-!
What is known of a class file that was read: it holds the bytes it was read from, and its names have
points where class files have slashes.
-/

namespace Understudy

theorem ClassName.slash_notMem_binary (name : String) : '/' ∉ (ClassName.binary name).toList := by
  simp only [ClassName.binary, ClassName.replaceChar, String.toList_ofList, List.mem_map,
    not_exists, not_and]
  intro c _ h
  by_cases hc : c = '/'
  · rw [if_pos hc] at h
    exact absurd h (by decide)
  · rw [if_neg hc] at h
    exact hc h

theorem ConstantPool.slash_notMem_className {pool : List Constant} {slot : Nat} {name : String}
    (h : ConstantPool.className pool slot = .ok name) : '/' ∉ name.toList := by
  rw [ConstantPool.className] at h
  split at h
  · split at h
    · obtain rfl := Except.ok.inj h
      exact ClassName.slash_notMem_binary _
    · cases h
  · cases h

namespace ClassFile

/-- Reading a file is reading its header and looking two names up. -/
theorem parse_eq_ok {bytes : Bytes} {file : ClassFile} (h : parse bytes = .ok file) :
    ∃ header, Header.read bytes = .ok header ∧
      ConstantPool.className header.constants header.thisSlot = .ok file.name ∧
      ConstantPool.className? header.constants header.superSlot = .ok file.superName ∧
      file = ⟨bytes, file.name, file.superName, header.version, header.accessFlags,
        header.flagsOffset⟩ := by
  rw [parse] at h
  split at h
  · cases h
  · next header hheader =>
    split at h
    · cases h
    · next name hname =>
      split at h
      · cases h
      · next superName hsuper =>
        obtain rfl := Except.ok.inj h
        exact ⟨header, hheader, hname, hsuper, rfl⟩

theorem bytes_of_parse {bytes : Bytes} {file : ClassFile} (h : parse bytes = .ok file) :
    file.bytes = bytes := by
  obtain ⟨_, _, _, _, hfile⟩ := parse_eq_ok h
  rw [hfile]

theorem slash_notMem_of_parse {bytes : Bytes} {file : ClassFile} (h : parse bytes = .ok file) :
    '/' ∉ file.name.toList := by
  obtain ⟨_, _, hname, _, _⟩ := parse_eq_ok h
  exact ConstantPool.slash_notMem_className hname

end ClassFile

end Understudy
