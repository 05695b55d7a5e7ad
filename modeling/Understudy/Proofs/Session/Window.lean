import Understudy.Proofs.Session.Modified
import Understudy.Proofs.Session.Search

/-!
Definitions from a window of some bytes, of which offset and length are words. What comes of one is
told by the bytes of the window, the name and the table; what lies around the window does not count.
A window that goes beyond the buffer is refused, also where the sum of the two is no word. A table
changes only where a class is defined, and only under its name. Main statement:
`defineInTable_windowed`.
-/

namespace Understudy

namespace Definition

/-- Where a window ends whose place is counted in words of 64 bits, unless the sum wraps around. -/
def stop? (offset length : UInt64) : Option UInt64 :=
  if offset ≤ offset + length then some (offset + length) else none

/-- The window as it is cut out where places are counted in words. -/
def wordWindow (buffer : Bytes) (offset length : UInt64) : Except Error Bytes :=
  match stop? offset length with
  | none => .error .outOfBounds
  | some stop =>
    if offset ≤ stop ∧ stop.toNat ≤ buffer.length then
      .ok ((buffer.take stop.toNat).drop offset.toNat)
    else
      .error .outOfBounds

variable {d d' : Definition}

theorem window_of_lt (h : d.bytes.length < d.offset + d.length) :
    d.window = .error .outOfBounds := if_neg (Nat.not_le.mpr h)

theorem window_of_le (h : d.offset + d.length ≤ d.bytes.length) :
    d.window = .ok ((d.bytes.drop d.offset).take d.length) := if_pos h

theorem window_between (name : String) (before window behind : Bytes) (domain : ProtectionDomain) :
    Definition.window ⟨name, before ++ window ++ behind, before.length, window.length, domain⟩ =
      .ok window := by
  rw [window_of_le (by simp)]
  simp

/-- Counting in words finds the same window: a sum that wraps around would lie behind the end of any
bytes that words can count. -/
theorem window_eq_wordWindow {buffer : Bytes} (hbuffer : buffer.length < 2 ^ 64) (name : String)
    (offset length : UInt64) (domain : ProtectionDomain) :
    Definition.window ⟨name, buffer, offset.toNat, length.toNat, domain⟩ =
      wordWindow buffer offset length := by
  have hsum : (offset + length).toNat = (offset.toNat + length.toNat) % 2 ^ 64 :=
    UInt64.toNat_add offset length
  have hoffset : offset.toNat < 2 ^ 64 := offset.toNat_lt
  have hlength : length.toNat < 2 ^ 64 := length.toNat_lt
  rw [wordWindow, stop?]
  by_cases hwraps : offset.toNat + length.toNat < 2 ^ 64
  · rw [Nat.mod_eq_of_lt hwraps] at hsum
    have hle : offset ≤ offset + length := by
      rw [UInt64.le_iff_toNat_le, hsum]
      exact Nat.le_add_right _ _
    rw [if_pos hle, window]
    simp only [hle, true_and, hsum]
    by_cases hin : offset.toNat + length.toNat ≤ buffer.length
    · rw [if_pos hin, if_pos hin, List.drop_take]
      simp
    · rw [if_neg hin, if_neg hin]
  · have hlt : ¬ offset ≤ offset + length := by
      rw [UInt64.le_iff_toNat_le, hsum]
      omega
    rw [if_neg hlt, window_of_lt]
    dsimp only
    omega

/-- What is defined is told by the name, the origin and the window. -/
theorem classIn_congr (hname : d.name = d'.name) (hdomain : d.domain = d'.domain)
    (hwindow : d.window = d'.window) (table : ClassTable) (owner : LoaderId)
    (handle : ClassHandle) : d.classIn table owner handle = d'.classIn table owner handle := by
  have hfile : d.classFile = d'.classFile := by rw [classFile, classFile, hname, hwindow]
  rw [classIn, classIn, hfile, hname, hdomain]

end Definition

namespace Session

variable {s : Session} {id : LoaderId} {d d' : Definition}

theorem defineInTable_congr (hname : d.name = d'.name) (hdomain : d.domain = d'.domain)
    (hwindow : d.window = d'.window) : defineInTable id d s = defineInTable id d' s := by
  rw [defineInTable, defineInTable, Definition.classIn_congr hname hdomain hwindow]

theorem define_congr (hname : d.name = d'.name) (hdomain : d.domain = d'.domain)
    (hwindow : d.window = d'.window) : define id d s = define id d' s := by
  rw [define, define, defineInTable_congr hname hdomain hwindow, hname]

/-! ### What comes of a definition, in the order in which it is checked -/

theorem defineInTable_of_outside {e : Error} (hwindow : d.window = .error e) :
    defineInTable id d s = (.error e, s) := by
  simp only [defineInTable, Definition.classIn, Definition.classFile, hwindow]

theorem defineInTable_of_malformed {window : Bytes} {e : Error} (hwindow : d.window = .ok window)
    (hparse : ClassFile.parse window = .error e) : defineInTable id d s = (.error e, s) := by
  simp only [defineInTable, Definition.classIn, Definition.classFile, hwindow, hparse]

theorem defineInTable_of_misnamed {window : Bytes} {file : ClassFile}
    (hwindow : d.window = .ok window) (hparse : ClassFile.parse window = .ok file)
    (hname : file.name ≠ d.name) :
    defineInTable id d s = (.error (.classNameMismatch d.name file.name), s) := by
  simp only [defineInTable, Definition.classIn, Definition.classFile, hwindow, hparse, hname,
    if_false]

theorem defineInTable_of_taken {window : Bytes} {file : ClassFile}
    (hwindow : d.window = .ok window) (hparse : ClassFile.parse window = .ok file)
    (hname : file.name = d.name) (htaken : s.isDefined id d.name = true) :
    defineInTable id d s = (.error (.duplicateDefinition d.name), s) := by
  rw [isDefined] at htaken
  simp only [defineInTable, Definition.classIn, Definition.classFile, hwindow, hparse, hname,
    if_true, htaken]

theorem defineInTable_of_free {window : Bytes} {file : ClassFile}
    (hwindow : d.window = .ok window) (hparse : ClassFile.parse window = .ok file)
    (hname : file.name = d.name) (hfree : s.isDefined id d.name = false) :
    (defineInTable id d s).1 = .ok ⟨⟨s.nextHandle⟩, id, d.domain, file⟩ := by
  rw [isDefined] at hfree
  simp only [defineInTable, Definition.classIn, Definition.classFile, hwindow, hparse, hname,
    if_true, hfree, Bool.false_eq_true, if_false]

theorem defineInTable_of_ok {c : DefinedClass} (h : (defineInTable id d s).1 = .ok c) :
    c.loader = id ∧ c.file.name = d.name ∧ (defineInTable id d s).2 = s.enter c := by
  rw [defineInTable] at h ⊢
  cases hclass : d.classIn (s.tableOf id) id ⟨s.nextHandle⟩ with
  | error e =>
    rw [hclass] at h
    cases h
  | ok defined =>
    rw [hclass] at h
    obtain rfl := Except.ok.inj h
    obtain ⟨hshape, hfile, -⟩ := Definition.classIn_eq_ok hclass
    obtain ⟨-, -, hname⟩ := Definition.classFile_eq_ok hfile
    exact ⟨by rw [hshape], hname, rfl⟩

/-- A class that is defined is entered under its name, and no other name of any table is touched. -/
theorem find?_tableOf_defineInTable {c : DefinedClass} (owner : s.keepsClasses id = true)
    (h : (defineInTable id d s).1 = .ok c) :
    ((defineInTable id d s).2.tableOf id).find? d.name = some c ∧
      ∀ other name, other ≠ id ∨ name ≠ d.name →
        ((defineInTable id d s).2.tableOf other).find? name = (s.tableOf other).find? name := by
  obtain ⟨rfl, hname, hafter⟩ := defineInTable_of_ok h
  rw [hafter, ← hname]
  exact ⟨find?_enter_self owner, fun other name hother =>
    find?_enter_of_ne owner (hother.imp_right Ne.symm)⟩

/-- What comes of defining a class from a window of a buffer, in the order in which it can fail. -/
theorem defineInTable_windowed (owner : s.keepsClasses id = true) (name : String) (buffer : Bytes)
    (offset length : UInt64) (domain : ProtectionDomain) :
    let d : Definition := ⟨name, buffer, offset.toNat, length.toNat, domain⟩
    let outcome := defineInTable id d s
    (buffer.length < 2 ^ 64 → d.window = Definition.wordWindow buffer offset length) ∧
    (buffer.length < offset.toNat + length.toNat → outcome = (.error .outOfBounds, s)) ∧
    (offset.toNat + length.toNat ≤ buffer.length →
      let window := (buffer.drop offset.toNat).take length.toNat
      (∀ e, ClassFile.parse window = .error e → outcome = (.error e, s)) ∧
      ∀ file, ClassFile.parse window = .ok file →
        (file.name ≠ name → outcome = (.error (.classNameMismatch name file.name), s)) ∧
        (file.name = name → s.isDefined id name = true →
          outcome = (.error (.duplicateDefinition name), s)) ∧
        (file.name = name → s.isDefined id name = false → file.bytes = window ∧
          outcome.1 = .ok ⟨⟨s.nextHandle⟩, id, domain, file⟩)) ∧
    (∀ e, outcome.1 = .error e → outcome.2 = s) ∧
    (∀ c, outcome.1 = .ok c → (outcome.2.tableOf id).find? name = some c ∧
      ∀ other n, other ≠ id ∨ n ≠ name →
        (outcome.2.tableOf other).find? n = (s.tableOf other).find? n) ∧
    ∀ before window behind : Bytes,
      let within : Definition :=
        ⟨name, before ++ window ++ behind, before.length, window.length, domain⟩
      let alone : Definition := .whole name window domain
      defineInTable id within s = defineInTable id alone s ∧
        define id within s = define id alone s := by
  intro d outcome
  refine ⟨fun hbuffer => Definition.window_eq_wordWindow hbuffer name offset length domain,
    fun hbeyond => defineInTable_of_outside (Definition.window_of_lt hbeyond), fun hwithin => ?_,
    fun e hfailed => ?_, fun c hok => find?_tableOf_defineInTable owner hok,
    fun before window behind => ?_⟩
  · have hwindow : d.window = .ok ((buffer.drop offset.toNat).take length.toNat) :=
      Definition.window_of_le hwithin
    refine ⟨fun e hparse => defineInTable_of_malformed hwindow hparse, fun file hparse => ?_⟩
    exact ⟨defineInTable_of_misnamed hwindow hparse, defineInTable_of_taken hwindow hparse,
      fun hname hfree => ⟨ClassFile.bytes_of_parse hparse,
        defineInTable_of_free hwindow hparse hname hfree⟩⟩
  · exact congrArg Prod.snd (defineInTable_of_error hfailed)
  · have hwindow : Definition.window ⟨name, before ++ window ++ behind, before.length,
        window.length, domain⟩ = (Definition.whole name window domain).window := by
      rw [Definition.window_between, Definition.window_whole]
    exact ⟨defineInTable_congr rfl rfl hwindow, define_congr rfl rfl hwindow⟩

/-- The bytes of a class between some others. -/
def padded : Bytes := [0xAA, 0xAA, 0xAA] ++ Stub.encode { name := "A" } ++ [0xBB, 0xBB]

/-- A window is refused whose end is no word, and a class is defined from the bytes that it has
between the others. -/
theorem defineInTable_windowed_padded :
    (start .empty).keepsClasses ambient = true ∧
      padded.length < (18446744073709551615 : UInt64).toNat + (2 : UInt64).toNat ∧
      defineInTable ambient ⟨"A", padded, 18446744073709551615, 2, {}⟩ (start .empty) =
        (.error .outOfBounds, start .empty) ∧
      ∃ file, ClassFile.parse (Stub.encode { name := "A" }) = .ok file ∧
        (defineInTable ambient ⟨"A", padded, 3, 53, {}⟩ (start .empty)).1 =
          .ok ⟨⟨0⟩, ambient, {}, file⟩ ∧
        file.bytes = Stub.encode { name := "A" } := by
  have owner : (start .empty).keepsClasses ambient = true := rfl
  have hlong : padded.length < (18446744073709551615 : UInt64).toNat + (2 : UInt64).toNat := by
    decide
  obtain ⟨-, hrefused, -⟩ :=
    defineInTable_windowed owner "A" padded 18446744073709551615 2 {}
  obtain ⟨-, -, hwithin, -⟩ := defineInTable_windowed owner "A" padded 3 53 {}
  simp only [UInt64.reduceToNat] at hrefused hwithin hlong
  obtain ⟨-, hread⟩ := hwithin (by decide)
  have hwindow : (padded.drop 3).take 53 = Stub.encode { name := "A" } := by decide
  rw [hwindow] at hread
  have hparsed : (ClassFile.parse (Stub.encode { name := "A" })).map (·.name) = .ok "A" := by
    decide +kernel
  rcases hparse : ClassFile.parse (Stub.encode { name := "A" }) with e | file
  · rw [hparse] at hparsed
    cases hparsed
  · rw [hparse] at hparsed
    obtain ⟨-, -, hfree⟩ := hread file hparse
    obtain ⟨hbytes, hdefined⟩ := hfree (Except.ok.inj hparsed) rfl
    exact ⟨owner, by decide, hrefused hlong, file, rfl, hdefined, hbytes⟩

end Session

end Understudy
