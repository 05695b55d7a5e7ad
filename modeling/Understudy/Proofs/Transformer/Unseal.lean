import Mathlib.Data.Nat.Bitwise
import Understudy.Proofs.ClassFile.Stub
import Understudy.Proofs.Transformer.Passes

/-!
What opening a class changes. The final flag is one bit of one byte of a class file, and for a final
class that is no interface this bit is cleared; any other class comes out as it is. Nothing else
changes, and the file goes on telling what its bytes tell. What has come out passes once more as it
is, and setting the version before and after is the same. Main statement: `apply_opens`.
-/

namespace Understudy

/-! ### Flags by their bits -/

namespace AccessFlags

variable {flags : AccessFlags} {k : Nat}

/-- The flags have the bit of number `k`, counted from the lowest one. -/
def HasBit (flags : AccessFlags) (k : Nat) : Prop := flags.bits.toNat.testBit k = true

theorem contains_iff_hasBit {flag : AccessFlags} (h : flag.bits.toNat = 2 ^ k) :
    flags.contains flag = true ↔ flags.HasBit k := by
  rw [contains, beq_iff_eq, ← UInt16.toNat_inj, UInt16.toNat_and, h, Nat.and_two_pow, HasBit]
  cases flags.bits.toNat.testBit k with
  | false => simp [(Nat.two_pow_pos k).ne]
  | true => simp

/-- The number of the final bit. -/
def finalIndex : Nat := 4

/-- The number of the interface bit. -/
def interfaceIndex : Nat := 9

theorem testBit_difference_finalBit (flags : AccessFlags) (k : Nat) :
    (flags.difference finalBit).bits.toNat.testBit k =
      (flags.bits.toNat.testBit k && decide (finalIndex ≠ k)) := by
  have hmask : (~~~finalBit.bits).toNat = 2 ^ 16 - (2 ^ finalIndex + 1) := rfl
  rw [difference, UInt16.toNat_and, hmask, Nat.testBit_and,
    Nat.testBit_two_pow_sub_succ (by decide), Nat.testBit_two_pow]
  by_cases hk : k < 16
  · simp [hk]
  · -- there are no bits from the sixteenth on
    have hnone : flags.bits.toNat.testBit k = false :=
      Nat.testBit_lt_two_pow (Nat.lt_of_lt_of_le flags.bits.toNat_lt
        (Nat.pow_le_pow_right (by decide) (Nat.le_of_not_lt hk)))
    simp [hnone]

theorem hasBit_difference_finalBit_iff :
    (flags.difference finalBit).HasBit k ↔ flags.HasBit k ∧ k ≠ finalIndex := by
  rw [HasBit, HasBit, testBit_difference_finalBit, Bool.and_eq_true, decide_eq_true_iff, ne_comm]

/-- Of the two bytes of the flags, the lower one has the final bit. -/
theorem hasBit_finalIndex_iff : flags.HasBit finalIndex ↔
    UInt8.ofNat flags.bits.toNat &&& 0x10 = 0x10 := by
  have hbit : (0x10 : UInt8).toNat = 2 ^ finalIndex := rfl
  have hlow : (flags.bits.toNat % 2 ^ 8).testBit finalIndex =
      flags.bits.toNat.testBit finalIndex := by
    rw [Nat.testBit_mod_two_pow, finalIndex]
    rfl
  rw [← UInt8.toNat_inj, UInt8.toNat_and, UInt8.toNat_ofNat', hbit, Nat.and_two_pow, hlow, HasBit]
  cases flags.bits.toNat.testBit finalIndex with
  | false => simp [finalIndex]
  | true => simp

theorem ofNat_difference_finalBit (flags : AccessFlags) :
    UInt8.ofNat (flags.difference finalBit).bits.toNat =
      UInt8.ofNat flags.bits.toNat &&& ~~~0x10 := by
  have hmask : (~~~0x10 : UInt8).toNat = 2 ^ 8 - (2 ^ finalIndex + 1) := rfl
  refine UInt8.toNat_inj.mp (Nat.eq_of_testBit_eq fun i => ?_)
  rw [UInt8.toNat_and, UInt8.toNat_ofNat', UInt8.toNat_ofNat', hmask, Nat.testBit_and,
    Nat.testBit_mod_two_pow, Nat.testBit_mod_two_pow, testBit_difference_finalBit,
    Nat.testBit_two_pow_sub_succ (by decide), Nat.testBit_two_pow]
  by_cases hi : i < 8
  · simp [hi]
  · simp [hi]

theorem ofNat_difference_finalBit_div (flags : AccessFlags) :
    UInt8.ofNat ((flags.difference finalBit).bits.toNat / 256) =
      UInt8.ofNat (flags.bits.toNat / 256) := by
  have hbyte : 256 = 2 ^ 8 := rfl
  refine UInt8.toNat_inj.mp (Nat.eq_of_testBit_eq fun i => ?_)
  have hother : finalIndex ≠ i + 8 := by
    rw [finalIndex]
    omega
  rw [UInt8.toNat_ofNat', UInt8.toNat_ofNat', Nat.testBit_mod_two_pow, Nat.testBit_mod_two_pow,
    hbyte, Nat.testBit_div_two_pow, Nat.testBit_div_two_pow, testBit_difference_finalBit,
    decide_eq_true hother, Bool.and_true]

end AccessFlags

namespace ClassFile

/-- A class is final and no interface. -/
def IsSealed (file : ClassFile) : Prop :=
  file.accessFlags.HasBit AccessFlags.finalIndex ∧
    ¬ file.accessFlags.HasBit AccessFlags.interfaceIndex

namespace Layout

/-- The parts of the file with its final bit cleared. -/
def opened (l : Layout) : Layout :=
  { l with accessFlags := l.accessFlags.difference .finalBit }

/-- The lower byte of the flags, with what is in front of it and behind it. -/
theorem exists_bytes_eq (l : Layout) : ∃ before behind : Bytes,
    before.length = l.file.flagsOffset + 1 ∧
    l.bytes = before ++ UInt8.ofNat l.accessFlags.bits.toNat :: behind ∧
    l.opened.bytes = before ++ (UInt8.ofNat l.accessFlags.bits.toNat &&& ~~~0x10) :: behind := by
  refine ⟨BigEndian.encode 4 magic ++ (BigEndian.encode 2 l.version.minor.toNat ++
      (BigEndian.encode 2 l.version.major.toNat ++
        (l.pool ++ [UInt8.ofNat (l.accessFlags.bits.toNat / 256)]))),
    BigEndian.encode 2 l.thisSlot.toNat ++ (BigEndian.encode 2 l.superSlot.toNat ++ l.tail),
    ?_, ?_, ?_⟩
  · simp only [List.length_append, BigEndian.length_encode, List.length_singleton, file]
    omega
  · simp only [bytes, behindPool, BigEndian.encode, List.nil_append, List.cons_append,
      List.append_assoc]
  · simp only [bytes, opened, behindPool, BigEndian.encode,
      AccessFlags.ofNat_difference_finalBit, AccessFlags.ofNat_difference_finalBit_div,
      List.nil_append, List.cons_append, List.append_assoc]

theorem bytes_opened (l : Layout) :
    l.opened.bytes = l.bytes.modify (l.file.flagsOffset + 1) (· &&& ~~~0x10) := by
  obtain ⟨before, behind, hlength, hbytes, hopened⟩ := l.exists_bytes_eq
  rw [hopened, hbytes, ← hlength]
  exact (List.modifyTailIdx_add (List.modifyHead (· &&& ~~~0x10)) 0 before
    (UInt8.ofNat l.accessFlags.bits.toNat :: behind)).symm

/-- The file of a final class has the bit that is cleared. -/
theorem exists_getElem?_bytes (l : Layout) (h : l.file.IsSealed) :
    ∃ b, l.bytes[l.file.flagsOffset + 1]? = some b ∧ b &&& 0x10 = 0x10 := by
  obtain ⟨before, behind, hlength, hbytes, -⟩ := l.exists_bytes_eq
  refine ⟨_, ?_, AccessFlags.hasBit_finalIndex_iff.mp h.1⟩
  rw [hbytes, ← hlength, List.getElem?_append_right (Nat.le_refl _), Nat.sub_self]
  rfl

theorem not_isSealed_opened (l : Layout) : ¬ l.opened.file.IsSealed := fun h =>
  (AccessFlags.hasBit_difference_finalBit_iff.mp h.1).2 rfl

end Layout

end ClassFile

namespace Unseal

open ClassFile

theorem applies_iff_isSealed {file : ClassFile} : applies file = true ↔ file.IsSealed := by
  rw [applies, Bool.and_eq_true, Bool.not_eq_true', ← Bool.not_eq_true,
    AccessFlags.contains_iff_hasBit (k := AccessFlags.finalIndex) rfl,
    AccessFlags.contains_iff_hasBit (k := AccessFlags.interfaceIndex) rfl, IsSealed]

theorem transform_file (l : Layout) : transform l.file = .ok l.opened.file := by
  rw [transform, withAccessFlags, l.setAccessFlags_file]
  rfl

/-- Any class but a sealed one passes as it is. -/
theorem apply_of_not_isSealed {file : ClassFile} (h : ¬ file.IsSealed)
    (context : Transformer.Context) :
    (Chain.apply [transformer] file context).2 = .ok file := by
  have hdeclined : transformer.accepts file context = false :=
    Bool.eq_false_iff.mpr (mt applies_iff_isSealed.mp h)
  exact Chain.apply_of_passes (.skipped hdeclined .done)

theorem apply_of_isSealed {l : Layout} (h : l.file.IsSealed) (context : Transformer.Context) :
    (Chain.apply [transformer] l.file context).2 = .ok l.opened.file :=
  Chain.apply_of_passes (.changed (applies_iff_isSealed.mpr h) (transform_file l) .done)

theorem withVersion_file (l : Layout) (version : ClassVersion) :
    l.file.withVersion version = .ok { l with version := version }.file := by
  rw [withVersion, l.setVersion_file]
  rfl

/-- A class passes the chain that opens classes, in any context. -/
theorem apply_opens {bytes : Bytes} {file : ClassFile} (h : ClassFile.parse bytes = .ok file)
    (context : Transformer.Context) : ∃ out : ClassFile,
    (Chain.apply [transformer] file context).2 = .ok out ∧
    ClassFile.parse out.bytes = .ok out ∧
    out = { file with bytes := out.bytes, accessFlags := out.accessFlags } ∧
    (∀ k, k ≠ AccessFlags.finalIndex → (out.accessFlags.HasBit k ↔ file.accessFlags.HasBit k)) ∧
    (file.IsSealed → ¬ out.accessFlags.HasBit AccessFlags.finalIndex ∧
      out.bytes = bytes.modify (file.flagsOffset + 1) (· &&& ~~~0x10) ∧
      ∃ b, bytes[file.flagsOffset + 1]? = some b ∧ b &&& 0x10 = 0x10) ∧
    (¬ file.IsSealed → out = file ∧ out.bytes = bytes) ∧
    (∀ later, (Chain.apply [transformer] out later).2 = .ok out) ∧
    ∀ version, ∃ before both, file.withVersion version = .ok before ∧
      (Chain.apply [transformer] before context).2 = .ok both ∧
      out.withVersion version = .ok both := by
  have hbytes := bytes_of_parse h
  obtain ⟨l, rfl⟩ := Layout.exists_of_parse h
  by_cases hsealed : l.file.IsSealed
  · refine ⟨l.opened.file, apply_of_isSealed hsealed context, l.opened.parse_bytes, rfl,
      fun k hk => ?_, fun _ => ⟨fun hfinal => ?_, ?_, ?_⟩, fun hnot => absurd hsealed hnot,
      apply_of_not_isSealed l.not_isSealed_opened, fun version => ?_⟩
    · exact AccessFlags.hasBit_difference_finalBit_iff.trans (and_iff_left hk)
    · exact (AccessFlags.hasBit_difference_finalBit_iff.mp hfinal).2 rfl
    · rw [← hbytes]
      exact l.bytes_opened
    · rw [← hbytes]
      exact l.exists_getElem?_bytes hsealed
    · -- both ways lead to the parts with the one field and the other replaced
      exact ⟨_, _, withVersion_file l version,
        apply_of_isSealed (l := { l with version := version }) hsealed context,
        withVersion_file l.opened version⟩
  · refine ⟨l.file, apply_of_not_isSealed hsealed context, l.parse_bytes, rfl, fun _ _ => Iff.rfl,
      fun hs => absurd hs hsealed, fun _ => ⟨rfl, hbytes⟩, apply_of_not_isSealed hsealed,
      fun version => ?_⟩
    have hmoved : ¬ ClassFile.IsSealed (Layout.file { l with version := version }) := hsealed
    exact ⟨_, _, withVersion_file l version, apply_of_not_isSealed hmoved context,
      withVersion_file l version⟩

/-- A final class with a bit that has no name. -/
def closed : Stub := { name := "A", accessFlags := ⟨0x0831⟩ }

/-- One bit of the bytes is cleared, and the one without a name is kept. -/
theorem apply_opens_closed :
    ClassFile.parse closed.encode = .ok closed.file ∧ ∃ out,
      (Chain.apply [transformer] closed.file ⟨"A", ⟨1⟩, false⟩).2 = .ok out ∧
      closed.file.IsSealed ∧ out.bytes = closed.encode.modify 40 (· &&& ~~~0x10) ∧
      out.accessFlags.HasBit 11 ∧ out.name = "A" := by
  have hparse := closed.parse_encode_eq
  have hsealed : closed.file.IsSealed := ⟨rfl, Bool.false_ne_true⟩
  have hname : closed.file.name = "A" := by decide +kernel
  obtain ⟨out, hout, -, hframe, hothers, hopened, -⟩ := apply_opens hparse ⟨"A", ⟨1⟩, false⟩
  refine ⟨hparse, out, hout, hsealed, (hopened hsealed).2.1, (hothers 11 (by decide)).mpr rfl, ?_⟩
  rw [hframe]
  exact hname

end Unseal

end Understudy
