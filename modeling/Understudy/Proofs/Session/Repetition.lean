import Understudy.Proofs.ClassPath.Faults
import Understudy.Proofs.Session.Answers

/-!
Finding a class that has been defined. A search that passes over the table goes the way that the
class would go if it were new. A name that the policy defers by now is answered by the loader
deferred to, although there is a class of that name in the table. Any other one fails: it is refused
as a duplicate where a second class of the name would come of the search, that is, where the class
path still holds a file for the name and what the loader makes of it reads as a class of that name;
otherwise the search fails as it would fail anyway. In any case what has been defined stays. Main
statement: `find_of_isDefined`.
-/

namespace Understudy

/-- What a selective loader makes of a file that it finds under a name. -/
def SelectiveLoader.remake (loader : SelectiveLoader) (id : LoaderId) (name : String)
    (file : ClassFile) : Except Error ClassFile :=
  if loader.policy.shouldModify name then
    (loader.chain.apply file ⟨name, id, loader.suppressStatic.matchAny name⟩).2
  else .ok file

theorem SelectiveLoader.ownAnswer_of_found (loader : SelectiveLoader) (id : LoaderId)
    (name : String) (file : ClassFile) (table : ClassTable) (handle : ClassHandle) :
    loader.ownAnswer id (loader.policy.shouldModify name) name (.ok (some file)) table handle =
      match loader.remake id name file with
      | .error e => .error e
      | .ok made => (Definition.whole name made.bytes loader.domain).classIn table id handle :=
  rfl

/-- Only a unit of the chain can fail at it. -/
theorem SelectiveLoader.exists_of_remake {loader : SelectiveLoader} {id : LoaderId} {name : String}
    {file : ClassFile} {e : Error} (h : loader.remake id name file = .error e) :
    ∃ unit cause, e = .transformation name unit cause := by
  rw [remake] at h
  split at h
  · rcases Chain.passes_or_failsAt ⟨name, id, loader.suppressStatic.matchAny name⟩ loader.chain file
      with ⟨made, hpasses⟩ | ⟨unit, cause, hfails⟩
    · rw [Chain.apply_of_passes hpasses] at h
      cases h
    · rw [Chain.apply_of_failsAt hfails] at h
      cases h
      exact ⟨unit.name, cause, rfl⟩
  · cases h

namespace Definition

/-- All of some bytes are a class of a name if they read as one. -/
theorem exists_classFile_whole_iff {name : String} {bytes : Bytes} {domain : ProtectionDomain} :
    (∃ file, (whole name bytes domain).classFile = .ok file) ↔
      ∃ file, ClassFile.parse bytes = .ok file ∧ file.name = name := by
  have hname : (whole name bytes domain).name = name := rfl
  simp only [classFile, window_whole, hname]
  cases ClassFile.parse bytes with
  | error e => simp
  | ok file => by_cases h : file.name = name <;> simp [h]

/-- What is to be defined is no class file, or one of another class. -/
theorem fault_of_classFile {d : Definition} {e : Error} (h : d.classFile = .error e) :
    e.OfReading ∨ ∃ found, e = .classNameMismatch d.name found := by
  rw [classFile] at h
  split at h
  · next hwindow =>
    cases h
    rw [window] at hwindow
    split at hwindow
    · cases hwindow
    · cases hwindow
      exact .inl .outOfBounds
  · split at h
    · next hparse =>
      cases h
      exact .inl (ClassFile.ofReading_of_parse hparse)
    · split at h
      · cases h
      · cases h
        exact .inr ⟨_, rfl⟩

theorem ne_duplicateDefinition_of_classFile {d : Definition} {e : Error}
    (h : d.classFile = .error e) : e ≠ .duplicateDefinition d.name := by
  rcases fault_of_classFile h with hreading | ⟨found, rfl⟩
  · exact hreading.ne_duplicateDefinition d.name
  · nofun

/-- A name that is taken is never defined. It is refused for that, if nothing else is wrong. -/
theorem classIn_of_has {d : Definition} {table : ClassTable} (h : table.has d.name = true)
    (owner : LoaderId) (handle : ClassHandle) :
    ∃ e, d.classIn table owner handle = .error e ∧
      (e = .duplicateDefinition d.name ↔ ∃ file, d.classFile = .ok file) := by
  rw [classIn]
  cases hfile : d.classFile with
  | error e =>
    refine ⟨e, rfl, fun heq => ?_, fun hread => ?_⟩
    · exact absurd heq (ne_duplicateDefinition_of_classFile hfile)
    · obtain ⟨file, hok⟩ := hread
      cases hok
  | ok file => exact ⟨_, if_pos h, fun _ => ⟨file, rfl⟩, fun _ => rfl⟩

end Definition

/-- An answer of which something is known is a class. -/
theorem DefinedClass.exists_of_map_toOption {α : Type} {answer : Except Error DefinedClass}
    {f : DefinedClass → α} {a : α} (h : answer.toOption.map f = some a) :
    ∃ c, answer = .ok c ∧ f c = a := by
  cases answer with
  | error e => cases h
  | ok c => exact ⟨c, rfl, Option.some.inj h⟩

namespace Session

variable {s : Session} {id : LoaderId} {loader : SelectiveLoader} {name : String}

/-- A search for a class of one's own that has been defined fails, and it is for that if everything
else goes well. -/
theorem answer_loadOwned_of_has (hdefined : s.isDefined id name = true) :
    ∃ e, (loadOwned id loader (loader.policy.shouldModify name) name s).1 = .error e ∧
      (e = .duplicateDefinition name ↔ ∃ file made again,
        (s.classPathOf loader.entries).find s.files name = .ok (some file) ∧
          loader.remake id name file = .ok made ∧
            ClassFile.parse made.bytes = .ok again ∧ again.name = name) := by
  rw [answer_loadOwned]
  cases hfind : (s.classPathOf loader.entries).find s.files name with
  | error e =>
    refine ⟨e, rfl, fun heq => ?_, by simp⟩
    exact absurd heq ((ClassPath.ofReading_of_find hfind).ne_duplicateDefinition name)
  | ok found =>
    cases found with
    | none => exact ⟨_, rfl, by simp⟩
    | some file =>
      rw [SelectiveLoader.ownAnswer_of_found]
      cases hremake : loader.remake id name file with
      | error e =>
        obtain ⟨unit, cause, rfl⟩ := SelectiveLoader.exists_of_remake hremake
        exact ⟨_, rfl, by simp [hremake]⟩
      | ok made =>
        obtain ⟨e, hclass, hiff⟩ := Definition.classIn_of_has
          (d := .whole name made.bytes loader.domain) hdefined id ⟨s.nextHandle⟩
        refine ⟨e, hclass, hiff.trans ?_⟩
        rw [Definition.exists_classFile_whole_iff]
        simp [hremake]

/-- The search for a name that a selective loader has defined, where no interceptor claims the name.
-/
theorem find_of_isDefined (here : s.loader? id = some (.selective loader))
    (hdefined : s.isDefined id name = true)
    (hclaims : ∀ interceptor ∈ loader.interceptors, interceptor.claims name = false) :
    let answer := (find id name s).1
    (loader.policy.decide name = .defer → answer = (load loader.deferred name s).1) ∧
    (loader.policy.decide name ≠ .defer →
      (∃ e, answer = .error e) ∧
      (answer = .error (.duplicateDefinition name) ↔ ∃ file made again,
        (s.classPathOf loader.entries).find s.files name = .ok (some file) ∧
          loader.remake id name file = .ok made ∧
            ClassFile.parse made.bytes = .ok again ∧ again.name = name)) ∧
    ∀ c, (s.tableOf id).find? name = some c →
      ((find id name s).2.tableOf id).find? name = some c := by
  intro answer
  have hnone := find?_claims_eq_none hclaims
  have hanswer : answer = (findSelective (loadWithin s.loaders.length) id loader name s).1 := by
    simp only [answer, find, here]
  refine ⟨fun hdefer => ?_, fun hown => ?_, fun c => (sound_find id name s).grows.find?_tableOf⟩
  · rw [hanswer, findSelective_of_defer hnone hdefer, answer_loadDeferred]
    rfl
  · obtain ⟨e, herror, hiff⟩ :
        ∃ e, (loadOwned id loader (loader.policy.shouldModify name) name s).1 = .error e ∧ _ :=
      answer_loadOwned_of_has hdefined
    rw [hanswer, findSelective_of_own hnone hown, herror]
    exact ⟨⟨e, rfl⟩, by rw [← hiff, Except.error.injEq]⟩

/-- The loader that opens final classes has loaded its class `A`. Finding it again is refused,
because the class path and the chain would make the class once more. -/
theorem find_of_isDefined_opening :
    let opened := (opening.load ⟨1⟩ "A").2
    opened.isDefined ⟨1⟩ "A" = true ∧
      (opened.find ⟨1⟩ "A").1 = .error (.duplicateDefinition "A") ∧
      ∃ file made again,
        (opened.classPathOf opener.entries).find opened.files "A" = .ok (some file) ∧
        opener.remake ⟨1⟩ "A" file = .ok made ∧
          ClassFile.parse made.bytes = .ok again ∧ again.name = "A" := by
  intro opened
  have hdefined : opened.isDefined ⟨1⟩ "A" = true := by decide +kernel
  have hagain : (opened.find ⟨1⟩ "A").1 = .error (.duplicateDefinition "A") := by decide +kernel
  have hloader : opening.loader? ⟨1⟩ = some (.selective opener) := rfl
  obtain ⟨table, stats, here⟩ := (searches_load ⟨1⟩ "A" opening).exists_selective hloader
  have hown : opener.policy.decide "A" ≠ .defer := by decide +kernel
  obtain ⟨-, howned, -⟩ := find_of_isDefined here hdefined (fun _ hmem => nomatch hmem)
  exact ⟨hdefined, hagain, (howned hown).2.mp hagain⟩

/-- A selective loader that defers every name to a host. The host has the class `A` on its class
path, and the selective loader has defined a class of the same name directly. -/
def overruled : Session :=
  (run [.change (.addEntry (.single "A" (Stub.encode { name := "A" }))),
    .change (.addHost [⟨0⟩]),
    .change (.addSelective {}),
    .change (.setDeferred ⟨2⟩ ⟨1⟩),
    .request (.define ⟨2⟩ (.whole "A" (Stub.encode { name := "A" }) {}))] (start .empty)).2

/-- No interceptor claims anything there, and the class is defined. Finding it yields the host's
class all the same. -/
theorem find_overruled :
    (∃ loader, overruled.loader? ⟨2⟩ = some (.selective loader) ∧ loader.interceptors = []) ∧
      overruled.isDefined ⟨2⟩ "A" = true ∧
      ∃ c, (overruled.find ⟨2⟩ "A").1 = .ok c ∧ c.loader = ⟨1⟩ := by
  refine ⟨?_, by decide +kernel, ?_⟩
  · have hnone : (overruled.loader? ⟨2⟩).any (·.directions.any (·.1.isEmpty)) = true := by
      decide +kernel
    obtain ⟨l, here, hempty⟩ := Option.any_eq_true _ _ |>.mp hnone
    cases l with
    | selective loader => exact ⟨loader, here, List.isEmpty_iff.mp hempty⟩
    | host _ => cases hempty
    | resources _ => cases hempty
  · exact DefinedClass.exists_of_map_toOption (by decide +kernel)

end Session

end Understudy
