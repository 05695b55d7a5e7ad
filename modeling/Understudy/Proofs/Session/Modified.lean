import Understudy.Proofs.Selection.Rules
import Understudy.Proofs.Session.Asking
import Understudy.Proofs.Session.Growth
import Understudy.Proofs.Transformer.Passes

/-!
How the load of a class ends that a selective loader modifies. Every way in which it can end is told
by the class path, the chain and the name of what comes out of the chain: the class path fails or
has no such class, or the first unit that fails has the load fail, or else some file comes out. As
long as all units make their results by reading and editing class files, reading its bytes gives the
same file, so defining it meets no further trouble than a name that is not the one asked for. Main
statement: `load_modified`.
-/

namespace Understudy

/-! ### Defining a file that tells what its bytes tell -/

theorem Definition.window_whole (name : String) (bytes : Bytes) (domain : ProtectionDomain) :
    (whole name bytes domain).window = .ok bytes := by
  simp [window, whole]

/-- Such a file is defined as it is, if it bears the name. -/
theorem Definition.classIn_whole {file : ClassFile} (hfile : file.Agrees) (name : String)
    (domain : ProtectionDomain) {table : ClassTable} (hfree : table.find? name = none)
    (owner : LoaderId) (handle : ClassHandle) :
    (whole name file.bytes domain).classIn table owner handle =
      if file.name = name then .ok ⟨handle, owner, domain, file⟩
      else .error (.classNameMismatch name file.name) := by
  have hname : (whole name file.bytes domain).name = name := rfl
  rw [ClassFile.Agrees] at hfile
  simp only [classIn, classFile, window_whole, hfile, hname]
  by_cases h : file.name = name
  · simp [h, Keyed.has, hfree, whole]
  · simp [h]

namespace Session

variable {s : Session} {id : LoaderId} {loader : SelectiveLoader} {name : String}

/-- A class that is not in the table is looked for as if there were no table. -/
theorem load_eq_findSelective (h : s.loader? id = some (.selective loader))
    (hfree : loader.table.find? name = none) :
    ∃ depth, load id name s = findSelective (loadWithin depth) id loader name s := by
  obtain ⟨depth, hdepth⟩ := exists_length_eq_add_one h
  exact ⟨depth, by rw [load, hdepth, loadWithin, loadAsking_of_free _ h hfree]⟩

theorem findSelective_of_modify {ask : Asking}
    (hclaims : ∀ interceptor ∈ loader.interceptors, interceptor.claims name = false)
    (hmodify : loader.policy.decide name = .modify) :
    findSelective ask id loader name s = loadOwned id loader true name s := by
  have hown : loader.policy.decide name ≠ .defer := by
    rw [hmodify]
    decide
  have hmodify' : loader.policy.shouldModify name = true := by
    rw [Policy.shouldModify, hmodify]
    rfl
  rw [findSelective_of_own (find?_claims_eq_none hclaims) hown, hmodify']

theorem answer_defineOwned (event : LoadEvent) (file : ClassFile) :
    (defineOwned id loader name event file s).1 =
      (Definition.whole name file.bytes loader.domain).classIn (s.tableOf id) id
        ⟨s.nextHandle⟩ := by
  rw [defineOwned, defineInTable]
  cases (Definition.whole name file.bytes loader.domain).classIn (s.tableOf id) id
    ⟨s.nextHandle⟩ <;> rfl

/-- What comes out of the chain is defined as it is, if it bears the name. -/
theorem defineOwned_answer {file : ClassFile} (hfile : file.Agrees)
    (hfree : (s.tableOf id).find? name = none) (event : LoadEvent) :
    (defineOwned id loader name event file s).1 =
      if file.name = name then .ok ⟨⟨s.nextHandle⟩, id, loader.domain, file⟩
      else .error (.classNameMismatch name file.name) := by
  rw [answer_defineOwned, Definition.classIn_whole hfile name loader.domain hfree]

theorem visits_defineInTable (id : LoaderId) (d : Definition) (s : Session) :
    (defineInTable id d s).2.visits = s.visits := by
  rw [defineInTable]
  split
  · rfl
  · rfl

theorem visits_defineOwned (file : ClassFile) (event : LoadEvent) :
    (defineOwned id loader name event file s).2.visits = s.visits := by
  have htable := visits_defineInTable id (.whole name file.bytes loader.domain) s
  rw [defineOwned]
  split
  · next h =>
    rw [h] at htable
    exact htable
  · exact htable

/-! ### Loads of classes that are modified -/

/-- A class is looked for on the class path, passed through the chain and defined. -/
theorem loadOwned_of_find {file : ClassFile}
    (hfind : (s.classPathOf loader.entries).find s.files name = .ok (some file)) :
    let pass := loader.chain.apply file ⟨name, id, loader.suppressStatic.matchAny name⟩
    let passed := { s with visits := s.visits ++ pass.1 }
    loadOwned id loader true name s =
      match pass.2 with
      | .error e => (.error e, passed)
      | .ok changed => defineOwned id loader name .transformed changed passed := by
  rw [loadOwned, hfind]
  simp only [if_true, transform]
  rcases loader.chain.apply file ⟨name, id, loader.suppressStatic.matchAny name⟩ with ⟨_, _ | _⟩
  · rfl
  · rfl

/-- The visits of a load are those of the chain that the class is passed through, if it is found. -/
theorem visits_loadOwned (id : LoaderId) (loader : SelectiveLoader) (name : String) (s : Session) :
    let context : Transformer.Context := ⟨name, id, loader.suppressStatic.matchAny name⟩
    ∃ visits, (loadOwned id loader true name s).2.visits = s.visits ++ visits ∧
      visits.map (·.unit) <+: loader.chain ∧ ∀ visit ∈ visits, visit.context = context := by
  intro context
  have hnone : ∀ t : Session, t.visits = s.visits → ∃ visits, t.visits = s.visits ++ visits ∧
      visits.map (·.unit) <+: loader.chain ∧ ∀ visit ∈ visits, visit.context = context := by
    intro t ht
    exact ⟨[], by rw [ht, List.append_nil], List.nil_prefix, by simp⟩
  rcases hfind : (s.classPathOf loader.entries).find s.files name with e | _ | file
  · refine hnone _ ?_
    rw [loadOwned, hfind]
  · refine hnone _ ?_
    rw [loadOwned, hfind]
    rfl
  · refine ⟨(loader.chain.apply file context).1, ?_, Chain.units_visits_prefix context _ file,
      fun visit hvisit => Chain.context_of_mem_visits hvisit⟩
    rw [loadOwned_of_find hfind]
    rcases (loader.chain.apply file context).2 with e | changed
    · rfl
    · exact visits_defineOwned changed .transformed

/-- The load of a class that a selective loader has not defined, that no interceptor claims, and
that is to be modified. -/
theorem load_modified (hloader : s.loader? id = some (.selective loader))
    (hfree : loader.table.find? name = none)
    (hclaims : ∀ interceptor ∈ loader.interceptors, interceptor.claims name = false)
    (hmodify : loader.policy.decide name = .modify)
    (hedits : ∀ unit ∈ loader.chain, unit.OnlyEdits) :
    let found := (s.classPathOf loader.entries).find s.files name
    let context : Transformer.Context := ⟨name, id, loader.suppressStatic.matchAny name⟩
    let answer := (load id name s).1
    (∀ e, found = .error e → answer = .error e) ∧
    (found = .ok none → answer = .error (.classNotFound name)) ∧
    (∀ file, found = .ok (some file) →
      ((∃ c, loader.chain.Passes context file c) ∨
        ∃ unit cause, loader.chain.FailsAt context file unit cause) ∧
      (∀ unit cause, loader.chain.FailsAt context file unit cause →
        answer = .error (.transformation name unit.name cause)) ∧
      ∀ c, loader.chain.Passes context file c →
        ClassFile.parse c.bytes = .ok c ∧
        (c.name ≠ name → answer = .error (.classNameMismatch name c.name)) ∧
        (c.name = name → answer = .ok ⟨⟨s.nextHandle⟩, id, loader.domain, c⟩)) ∧
    (context.suppressStatic = true ↔
      ∃ pattern ∈ loader.suppressStatic, pattern.isMatch name = true) ∧
    ∃ visits, (load id name s).2.visits = s.visits ++ visits ∧
      visits.map (·.unit) <+: loader.chain ∧ ∀ visit ∈ visits, visit.context = context := by
  intro found context answer
  obtain ⟨depth, hload⟩ := load_eq_findSelective hloader hfree
  rw [findSelective_of_modify hclaims hmodify] at hload
  have hanswer : answer = (loadOwned id loader true name s).1 := by rw [← hload]
  refine ⟨fun e hfound => ?_, fun hfound => ?_, fun file hfound => ⟨?_, ?_, ?_⟩,
    Patterns.matchAny_eq_true_iff, ?_⟩
  · have h : (s.classPathOf loader.entries).find s.files name = .error e := hfound
    rw [hanswer, loadOwned, h]
  · have h : (s.classPathOf loader.entries).find s.files name = .ok none := hfound
    rw [hanswer, loadOwned, h]
  · exact Chain.passes_or_failsAt context loader.chain file
  · intro unit cause hfails
    rw [hanswer, loadOwned_of_find hfound, Chain.apply_of_failsAt hfails]
  · intro c hpasses
    have hagrees : c.Agrees := hpasses.agrees hedits (ClassPath.parse_of_find hfound)
    have hdefined : answer = if c.name = name then .ok ⟨⟨s.nextHandle⟩, id, loader.domain, c⟩
        else .error (.classNameMismatch name c.name) := by
      rw [hanswer, loadOwned_of_find hfound, Chain.apply_of_passes hpasses]
      -- passing the chain leaves the tables and the next identity alone
      refine defineOwned_answer hagrees ?_ .transformed
      rw [← hfree, ← tableOf_of_selective hloader]
      rfl
    exact ⟨hagrees, fun hname => by rw [hdefined, if_neg hname],
      fun hname => by rw [hdefined, if_pos hname]⟩
  · rw [hload]
    exact visits_loadOwned id loader name s

/-- A loader that takes over all classes and opens the final ones. -/
def opener : SelectiveLoader where
  policy := ⟨[], [], [Pattern.ofString "*"], []⟩
  suppressStatic := [Pattern.ofString "A"]
  entries := [⟨0⟩]
  chain := [Unseal.transformer]
  deferred := ambient
  domain := {}

/-- It has a final class on its class path. -/
def opening : Session :=
  { start .empty with
    holdings := [.single "A" (Stub.encode { name := "A", accessFlags := .finalBit })]
    loaders := [.host { entries := [] }, .selective opener] }

/-- The class is defined as the transformer leaves it, which knows that the static part is to be
suppressed. -/
theorem load_modified_opening :
    ∃ context file c, context.suppressStatic = true ∧
      Chain.Passes context [Unseal.transformer] file c ∧ c.name = "A" ∧
      (opening.load ⟨1⟩ "A").1 = .ok ⟨⟨0⟩, ⟨1⟩, {}, c⟩ ∧ ClassFile.parse c.bytes = .ok c := by
  have hok : (opening.load ⟨1⟩ "A").1.isOk = true := by decide +kernel
  have hloader : opening.loader? ⟨1⟩ = some (.selective opener) := rfl
  have hmodify : opener.policy.decide "A" = .modify := by decide +kernel
  obtain ⟨hfailed, hmissing, hended, hsuppress, -⟩ := load_modified hloader rfl
    (by simp [opener]) hmodify (by simp [opener, Unseal.onlyEdits_transformer])
  rcases hfound : (opening.classPathOf [⟨0⟩]).find opening.files "A" with e | _ | file
  · rw [hfailed e hfound] at hok
    cases hok
  · rw [hmissing hfound] at hok
    cases hok
  · obtain ⟨hpasses | ⟨unit, cause, hfails⟩, hrefused, hdefined⟩ := hended file hfound
    · obtain ⟨c, hpasses⟩ := hpasses
      obtain ⟨hparse, hother, hsame⟩ := hdefined c hpasses
      have hname : c.name = "A" := by
        by_contra h
        rw [hother h] at hok
        cases hok
      exact ⟨_, file, c, hsuppress.mpr (by decide +kernel), hpasses, hname, hsame hname, hparse⟩
    · rw [hrefused unit cause hfails] at hok
      cases hok

end Session

end Understudy
