import Understudy.ClassFile.Edit
import Understudy.ClassFile.Stub
import Understudy.Proofs.ClassFile.Layout

/-!
Edited class files. However a file that was read is edited, it goes on telling what its bytes tell:
reading them again gives the same file. Its two fields lie apart within the buffer. They can be
overwritten at any time, and overwriting one changes that field alone and no byte outside its place.
Bytes that are refused leave the file as it was. Main statement: `agrees_after_edits`.
-/

namespace Understudy.ClassFile

open BigEndian

/-- A class file tells what its bytes tell. -/
def Agrees (file : ClassFile) : Prop :=
  parse file.bytes = .ok file

theorem agrees_of_parse {bytes : Bytes} {file : ClassFile} (h : parse bytes = .ok file) :
    file.Agrees := by
  rw [Agrees, bytes_of_parse h, h]

theorem agrees_iff_exists_layout {file : ClassFile} : file.Agrees ↔ ∃ l : Layout, l.file = file :=
  Layout.parse_bytes_self_iff

/-! ### One edit -/

/-- Overwritten access flags are the only thing that changes. -/
theorem Agrees.setAccessFlags {file : ClassFile} (h : file.Agrees) (flags : AccessFlags) :
    ∃ edited, file.setAccessFlags flags = (.ok (), edited) ∧ edited.Agrees ∧
      edited = { file with bytes := edited.bytes, accessFlags := flags } := by
  obtain ⟨l, rfl⟩ := agrees_iff_exists_layout.mp h
  exact ⟨_, l.setAccessFlags_file flags, agrees_iff_exists_layout.mpr ⟨_, rfl⟩, rfl⟩

/-- An overwritten version is the only thing that changes. -/
theorem Agrees.setVersion {file : ClassFile} (h : file.Agrees) (version : ClassVersion) :
    ∃ edited, file.setVersion version = (.ok (), edited) ∧ edited.Agrees ∧
      edited = { file with bytes := edited.bytes, version := version } := by
  obtain ⟨l, rfl⟩ := agrees_iff_exists_layout.mp h
  exact ⟨_, l.setVersion_file version, agrees_iff_exists_layout.mpr ⟨_, rfl⟩, rfl⟩

theorem replaceBytes_of_error {file : ClassFile} {bytes : Bytes} {e : Error}
    (h : (file.replaceBytes bytes).1 = .error e) : (file.replaceBytes bytes).2 = file := by
  unfold replaceBytes at h ⊢
  cases hparse : parse bytes with
  | error e' => rfl
  | ok replacement =>
    rw [hparse] at h
    cases h

theorem Agrees.replaceBytes {file : ClassFile} (h : file.Agrees) (bytes : Bytes) :
    (file.replaceBytes bytes).2.Agrees := by
  rw [ClassFile.replaceBytes]
  cases hparse : parse bytes with
  | error e => exact h
  | ok replacement => exact agrees_of_parse hparse

theorem agreeOutside_of_setAccessFlags {file edited : ClassFile} {flags : AccessFlags}
    (h : file.setAccessFlags flags = (.ok (), edited)) :
    AgreeOutside file.flagsOffset 2 file.bytes edited.bytes := by
  rw [ClassFile.setAccessFlags] at h
  split at h
  · cases h
  · next bytes next hwrite =>
    cases h
    exact agreeOutside_of_writeAt hwrite

theorem agreeOutside_of_setVersion {file edited : ClassFile} {version : ClassVersion}
    (h : file.setVersion version = (.ok (), edited)) :
    AgreeOutside versionOffset 4 file.bytes edited.bytes := by
  rw [ClassFile.setVersion] at h
  split at h
  · cases h
  · next half next hminor =>
    split at h
    · cases h
    · next bytes _ hmajor =>
      cases h
      rw [next_of_writeAt hminor] at hmajor
      exact ((agreeOutside_of_writeAt hminor).widen (by omega) (by omega)).trans
        ((agreeOutside_of_writeAt hmajor).widen (by omega) (by omega))

theorem Agrees.offsets {file : ClassFile} (h : file.Agrees) :
    versionOffset + 4 ≤ file.flagsOffset ∧ file.flagsOffset + 2 ≤ file.bytes.length := by
  obtain ⟨l, rfl⟩ := agrees_iff_exists_layout.mp h
  constructor
  · simp [versionOffset, Layout.file]
  · simp [Layout.file, Layout.bytes, Layout.behindPool]
    omega

/-! ### Any number of edits -/

theorem Agrees.perform {file : ClassFile} (h : file.Agrees) (edit : Edit) :
    (edit.perform file).2.Agrees := by
  cases edit with
  | setAccessFlags flags =>
    obtain ⟨edited, hedited, hagrees, _⟩ := h.setAccessFlags flags
    rw [Edit.perform, hedited]
    exact hagrees
  | setVersion version =>
    obtain ⟨edited, hedited, hagrees, _⟩ := h.setVersion version
    rw [Edit.perform, hedited]
    exact hagrees
  | replaceBytes bytes => exact h.replaceBytes bytes

theorem Agrees.after {file : ClassFile} (h : file.Agrees) (edits : List Edit) :
    (file.after edits).Agrees := by
  induction edits generalizing file with
  | nil => exact h
  | cons edit edits ih => exact ih (h.perform edit)

/-- After any edits of a file that was read, the file tells what its bytes tell. -/
theorem agrees_after_edits {bytes : Bytes} {file : ClassFile} (h : parse bytes = .ok file)
    (edits : List Edit) :
    let current := file.after edits
    parse current.bytes = .ok current ∧
    versionOffset + 4 ≤ current.flagsOffset ∧
    current.flagsOffset + 2 ≤ current.bytes.length ∧
    (∀ flags, ∃ edited, current.setAccessFlags flags = (.ok (), edited) ∧
      parse edited.bytes = .ok edited ∧
      edited = { current with bytes := edited.bytes, accessFlags := flags } ∧
      AgreeOutside current.flagsOffset 2 current.bytes edited.bytes) ∧
    (∀ version, ∃ edited, current.setVersion version = (.ok (), edited) ∧
      parse edited.bytes = .ok edited ∧
      edited = { current with bytes := edited.bytes, version := version } ∧
      AgreeOutside versionOffset 4 current.bytes edited.bytes) ∧
    ∀ new e, (current.replaceBytes new).1 = .error e → (current.replaceBytes new).2 = current := by
  intro current
  have hcurrent : current.Agrees := (agrees_of_parse h).after edits
  obtain ⟨hversionPlace, hflagsPlace⟩ := hcurrent.offsets
  refine ⟨hcurrent, hversionPlace, hflagsPlace, ?_, ?_, fun new e => replaceBytes_of_error⟩
  · intro flags
    obtain ⟨edited, hedited, hagrees, hfields⟩ := hcurrent.setAccessFlags flags
    exact ⟨edited, hedited, hagrees, hfields, agreeOutside_of_setAccessFlags hedited⟩
  · intro version
    obtain ⟨edited, hedited, hagrees, hfields⟩ := hcurrent.setVersion version
    exact ⟨edited, hedited, hagrees, hfields, agreeOutside_of_setVersion hedited⟩

/-- The edits of a stub, one of which is refused. -/
theorem agrees_after_edits_stub :
    ∃ file, parse (Stub.encode { name := "A" }) = .ok file ∧
      let edited := file.after
        [.setAccessFlags ⟨0xFFFF⟩, .replaceBytes [0xCA, 0xFE], .setVersion ⟨61, 3⟩]
      parse edited.bytes = .ok edited := by
  have hread : (parse (Stub.encode { name := "A" })).toOption.isSome = true := by decide +kernel
  cases hfile : parse (Stub.encode { name := "A" }) with
  | error e =>
    rw [hfile] at hread
    cases hread
  | ok file => exact ⟨file, rfl, (agrees_after_edits hfile _).1⟩

end Understudy.ClassFile
