import Understudy.Proofs.ClassFile.Stub
import Understudy.Proofs.ClassPath.Appending
import Understudy.Proofs.Session.Absence
import Understudy.Proofs.Session.Agreement
import Understudy.Proofs.Session.Permanence
import Understudy.Proofs.Session.Use

/-!
Synthesized classes and those that ask for them. A synthesized class is a subclass of the root class
that is registered under the name that it was asked for under, and its bytes say what fits of this
name. Where that is the name, the class is found and loaded under it; otherwise it is found under a
name that it does not bear, and no host loads it. A name of up to 65535 bytes fits, and so does a
longer one that happens to end with the replacement character right where it is cut. Main statement:
`synthesized_served`.
-/

namespace Understudy

namespace Stub

/-- A name is read back from a stub if it fits into a text constant, or ends right where it is cut
in the character that stands for what is cut. -/
theorem fit_eq_self_iff {name : String} (hslash : '/' ∉ name.toList) :
    fit name = name ↔ (Utf8.encode name).length ≤ 65535 ∨
      ∃ kept, name.toList = kept ++ [Utf8.replacement] ∧ Utf8.size kept < 65535 := by
  have hbinary : ClassName.binary name = name := ClassName.binary_of_noSlash hslash
  rcases Nat.lt_or_ge 65535 (Utf8.encode name).length with hlong | hshort
  · obtain ⟨kept, hkept, hread⟩ := exists_toList_fit_of_lt hlong
    rw [hbinary, maxTextLength] at hkept
    rw [maxTextLength] at hread
    rw [← String.toList_inj, hread, or_iff_right (Nat.not_le_of_lt hlong)]
    refine ⟨fun hname => ?_, fun ⟨front, hname, hroom⟩ => ?_⟩
    · by_cases hroom : Utf8.size kept < 65535
      · rw [if_pos hroom] at hname
        exact ⟨kept, hname.symm, hroom⟩
      · -- a front that leaves no room is not the whole name, which is too long
        rw [if_neg hroom, List.append_nil] at hname
        rw [Utf8.length_encode, ← hname] at hlong
        exact absurd hlong (Nat.not_lt_of_le hkept.fits)
    · rw [Utf8.length_encode, hname, Utf8.size_append] at hlong
      have hcut : Utf8.front (65535 - Utf8.size front) [Utf8.replacement] = [] := by
        rw [Utf8.front, if_neg]
        rw [Utf8.size_cons, Utf8.size_nil] at hlong
        omega
      have hfront : kept = front := by
        rw [hkept.eq_front, hname, Utf8.front_append (Nat.le_of_lt hroom), hcut, List.append_nil]
      rw [hfront, if_pos hroom, hname]
  · rw [fit_of_le hshort, hbinary]
    exact ⟨fun _ => .inl hshort, fun _ => rfl⟩

end Stub

namespace Session

variable {s t u : Session} {id : LoaderId} {name : String}

/-- A host over entries as they are in a session, in that session or another one with the same
files and entries. -/
structure HostOver (t : Session) (entries : List EntryId) (u : Session) (id : LoaderId)
    (host : HostLoader) : Prop where
  files : u.files = t.files
  holdings : u.holdings = t.holdings
  here : u.loader? id = some (.host host)
  entries : host.entries = entries

variable {entries : List EntryId} {host : HostLoader}

theorem HostOver.classPathOf_eq (h : HostOver t entries u id host) :
    u.classPathOf host.entries = t.classPathOf entries := by
  rw [h.entries]
  exact classPathOf_congr fun entry _ => by rw [entryAt?, entryAt?, h.holdings]

theorem HostOver.map_file_load (h : HostOver t entries u id host)
    (hfree : host.table.find? name = none) :
    (load id name u).1.map (·.file) = (t.classPathOf entries).getNamed t.files name := by
  rw [map_file_load_of_host h.here hfree, h.classPathOf_eq, h.files]

/-- Such a host loads a class under a name that the class bears, and under no other. -/
theorem HostOver.load_of_get (h : HostOver t entries u id host) {file : ClassFile}
    (hget : (t.classPathOf entries).get t.files name = .ok file) :
    (file.name = name → ∃ c, (load id name u).1 = .ok c ∧
      (host.table.find? name = none → c.file = file)) ∧
    (file.name ≠ name → host.table.find? name = none →
      (load id name u).1 = .error (.classNameMismatch name file.name)) := by
  refine ⟨fun hname => ?_, fun hname hfree => ?_⟩
  · rcases hfree : host.table.find? name with _ | c
    · have hload := h.map_file_load hfree
      rw [ClassPath.getNamed, hget] at hload
      obtain ⟨c, hc, hfile⟩ := DefinedClass.exists_of_map_eq_ok (hload.trans (if_pos hname))
      exact ⟨c, hc, fun _ => hfile⟩
    · have hdefined : (u.tableOf id).find? name = some c := by
        rw [tableOf_of_host h.here, hfree]
      exact ⟨c, by rw [load_of_find? hdefined], fun hnone => absurd hnone (Option.some_ne_none c)⟩
  · have hload := h.map_file_load hfree
    rw [ClassPath.getNamed, hget] at hload
    exact DefinedClass.eq_error_of_map (hload.trans (if_neg hname))

/-! ### The entry of a synthesized class -/

theorem synthesize_eq (name : String) (s : Session) : synthesize name s =
    ((⟨s.holdings.length⟩, .ok (Stub.file { name := name })),
      (s.addEntry (.single name (Stub.encode { name := name }))).2) := by
  rw [← Stub.parse_encode_eq]
  rfl

/-- An entry of an identity that was given out already stays as it is. -/
theorem entryAt?_addEntry (s : Session) (holding : Holding) (entry : EntryId) :
    (s.addEntry holding).2.entryAt? entry = s.entryAt? entry ∨
      (s.addEntry holding).2.entryAt? entry = some ⟨entry, holding⟩ := by
  rcases Nat.lt_trichotomy entry.value s.holdings.length with hlt | heq | hgt
  · exact .inl (entryAt?_addEntry_of_lt s holding hlt)
  · obtain rfl : entry = ⟨s.holdings.length⟩ := congrArg EntryId.mk heq
    exact .inr (entryAt?_addEntry_self s holding)
  · refine .inl ?_
    rw [entryAt?, entryAt?, addEntry, List.getElem?_eq_none (Nat.le_of_lt hgt),
      List.getElem?_eq_none]
    rw [List.length_append, List.length_singleton]
    exact hgt

/-- What is registered behind entries that do not answer for it is what is found. By induction on
the entries. -/
theorem findBytes_addEntry (bytes : Bytes)
    (h : ClassPath.findBytes s.files name (s.classPathOf entries).entries = .ok none) :
    ClassPath.findBytes s.files name ((s.addEntry (.single name bytes)).2.classPathOf
      (entries ++ [⟨s.holdings.length⟩])).entries = .ok (some bytes) := by
  have hown : ∀ entry, Entry.classBytes s.files ⟨entry, .single name bytes⟩ name =
      .ok (some bytes) := fun _ => congrArg Except.ok (if_pos rfl)
  induction entries with
  | nil =>
    rw [List.nil_append, entries_classPathOf_cons (entryAt?_addEntry_self s _),
      ClassPath.findBytes, hown]
  | cons entry rest ih =>
    rw [List.cons_append]
    rcases entryAt?_addEntry s (.single name bytes) entry with hsame | hnew
    · rcases hentry : s.entryAt? entry with _ | e
      · rw [classPathOf, List.filterMap_cons_none hentry] at h
        rw [hentry] at hsame
        rw [classPathOf, List.filterMap_cons_none hsame]
        exact ih h
      · rw [entries_classPathOf_cons hentry, ClassPath.findBytes] at h
        rw [hentry] at hsame
        rw [entries_classPathOf_cons hsame, ClassPath.findBytes]
        split at h
        · next hdenied =>
          exact ih h
        · next hanswer => exact absurd h hanswer
    · rw [entries_classPathOf_cons hnew, ClassPath.findBytes, hown]

theorem get_synthesized
    (hfree : (s.classPathOf entries).find s.files name = .ok none) :
    ((s.addEntry (.single name (Stub.encode { name := name }))).2.classPathOf
      (entries ++ [⟨s.holdings.length⟩])).get s.files name = .ok (Stub.file { name := name }) := by
  have hbytes := findBytes_addEntry (Stub.encode { name := name })
    (ClassPath.find_eq_none_iff.mp hfree)
  rw [ClassPath.get, ClassPath.find_of_some hbytes, Stub.parse_encode_eq]
  rfl

/-- What becomes of a class that is synthesized under a name without slashes for which no entry
answers. -/
theorem synthesized_served (s : Session) (entries : List EntryId) {name : String}
    (hslash : '/' ∉ name.toList)
    (hfree : (s.classPathOf entries).find s.files name = .ok none) :
    let made := synthesize name s
    let longer := entries ++ [made.1.1]
    ∃ file, made.1.2 = .ok file ∧ file.superName = some "java.lang.Object" ∧
      (made.2.classPathOf longer).get made.2.files name = .ok file ∧
      (file.name = name ↔ (Utf8.encode name).length ≤ 65535 ∨
        ∃ kept, name.toList = kept ++ [Utf8.replacement] ∧ Utf8.size kept < 65535) ∧
      ∀ u id host, HostOver made.2 longer u id host →
        (file.name = name → ∃ c, (load id name u).1 = .ok c ∧
          (host.table.find? name = none → c.file = file)) ∧
        (file.name ≠ name → host.table.find? name = none →
          (load id name u).1 = .error (.classNameMismatch name file.name)) := by
  rw [synthesize_eq]
  intro made longer
  have hget := get_synthesized hfree
  have hsuper : Stub.fit "java.lang.Object" = "java.lang.Object" := by decide +kernel
  refine ⟨Stub.file { name := name }, rfl, ?_, hget, Stub.fit_eq_self_iff hslash,
    fun u id host hhost => hhost.load_of_get hget⟩
  rw [Stub.superName_file, hsuper]

/-- A class that is synthesized for nobody else, and a host over its entry. -/
def synthesizedAlone (name : String) : Session :=
  let made := synthesize name (start .empty)
  (made.2.addHost [made.1.1]).2

theorem hostOver_synthesizedAlone (name : String) :
    HostOver (synthesize name (start .empty)).2 [⟨0⟩] (synthesizedAlone name) ⟨1⟩
      { entries := [⟨0⟩] } := ⟨rfl, rfl, rfl, rfl⟩

/-- The class `A` is found and loaded. -/
theorem synthesized_served_alone :
    '/' ∉ "A".toList ∧ ((start .empty).classPathOf []).find .empty "A" = .ok none ∧
      ∃ file c, (synthesize "A" (start .empty)).1.2 = .ok file ∧ file.name = "A" ∧
        (load ⟨1⟩ "A" (synthesizedAlone "A")).1 = .ok c ∧ c.file = file := by
  have hslash : '/' ∉ "A".toList := by decide
  have hfree : ((start .empty).classPathOf []).find .empty "A" = .ok none := rfl
  obtain ⟨file, hmade, -, -, hname, hhosts⟩ := synthesized_served (start .empty) [] hslash hfree
  have hfits : file.name = "A" := hname.mpr (.inl (by decide))
  obtain ⟨c, hload, hfile⟩ := (hhosts _ _ _ (hostOver_synthesizedAlone "A")).1 hfits
  exact ⟨hslash, hfree, file, c, hmade, hfits, hload, hfile rfl⟩

/-- A name that does not fit. The class that is synthesized bears another one, and no host loads
it. -/
theorem unserved_when_long :
    let name := String.ofList (List.replicate 65536 'a')
    '/' ∉ name.toList ∧ ((start .empty).classPathOf []).find .empty name = .ok none ∧
      ∃ file, (synthesize name (start .empty)).1.2 = .ok file ∧ file.name ≠ name ∧
        (load ⟨1⟩ name (synthesizedAlone name)).1 =
          .error (.classNameMismatch name file.name) := by
  intro name
  have hletters : name.toList = List.replicate 65536 'a' := String.toList_ofList
  have hslash : '/' ∉ name.toList := by
    rw [hletters, List.mem_replicate]
    rintro ⟨-, h⟩
    exact absurd h (by decide)
  have hlong : Utf8.size name.toList = 65536 := by
    rw [hletters]
    exact Utf8.size_replicate 65536 rfl
  have hother : Stub.fit name ≠ name := by
    rw [ne_eq, Stub.fit_eq_self_iff hslash]
    rintro (hshort | ⟨kept, hend, -⟩)
    · rw [Utf8.length_encode, hlong] at hshort
      exact absurd hshort (by decide)
    · -- the last letter is not the replacement character
      have hmem : Utf8.replacement ∈ name.toList := by
        rw [hend]
        exact List.mem_concat_self
      rw [hletters, List.mem_replicate] at hmem
      exact absurd hmem.2 (by decide)
  have hfree : ((start .empty).classPathOf []).find .empty name = .ok none := rfl
  have hget := get_synthesized (s := start .empty) hfree
  refine ⟨hslash, hfree, Stub.file { name := name }, ?_, hother,
    ((hostOver_synthesizedAlone name).load_of_get hget).2 hother rfl⟩
  rw [synthesize_eq]

end Session

end Understudy
