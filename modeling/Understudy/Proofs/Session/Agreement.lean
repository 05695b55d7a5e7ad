import Understudy.Proofs.ClassPath.Absence
import Understudy.Proofs.Session.Repetition
import Understudy.Proofs.Session.Serving

/-!
Ways to the same class. A host hands on what its class path finds. A selective loader that leaves
the class as it is, because it is to, whatever its chain, or because no unit of its chain wants it,
reads the bytes once more and defines what it reads. Both look at the name, and nothing else can go
wrong on the one way and not on the other. Main statement: `load_ways_agree`.
-/

namespace Understudy

/-! ### What is found -/

/-- What the entries of a class path hold. -/
def ClassPath.holdings (cp : ClassPath) : List Holding := cp.entries.map (·.holding)

theorem Entry.classBytes_congr {entry other : Entry} (h : entry.holding = other.holding)
    (tree : FileTree) (name : String) :
    entry.classBytes tree name = other.classBytes tree name := by
  rw [classBytes, classBytes, h]

namespace ClassPath

/-- Whose entries they are makes no difference. -/
theorem findBytes_congr (tree : FileTree) (name : String) {entries others : List Entry}
    (h : entries.map (·.holding) = others.map (·.holding)) :
    findBytes tree name entries = findBytes tree name others := by
  induction entries generalizing others with
  | nil => rw [List.map_eq_nil_iff.mp h.symm]
  | cons entry rest ih =>
    obtain ⟨other, behind, rfl, hfirst, hrest⟩ := List.map_eq_cons_iff.mp h.symm
    rw [findBytes, findBytes, Entry.classBytes_congr hfirst, ih hrest.symm]

theorem find_eq_of_holdings {cp other : ClassPath} (h : cp.holdings = other.holdings)
    (tree : FileTree) (name : String) : cp.find tree name = other.find tree name :=
  find_congr (findBytes_congr tree name h)

/-- The class that is found under a name, which must be there and bear the name. -/
def getNamed (tree : FileTree) (cp : ClassPath) (name : String) : Except Error ClassFile :=
  match cp.get tree name with
  | .error e => .error e
  | .ok file => if file.name = name then .ok file else .error (.classNameMismatch name file.name)

theorem getNamed_eq_of_holdings {cp other : ClassPath} (h : cp.holdings = other.holdings)
    (tree : FileTree) (name : String) : cp.getNamed tree name = other.getNamed tree name := by
  rw [getNamed, getNamed, get, get, find_eq_of_holdings h]

end ClassPath

/-- A class that every unit declines passes the chain as it is. -/
theorem Chain.passes_of_declined {chain : Chain} {file : ClassFile} {context : Transformer.Context}
    (h : ∀ unit ∈ chain, unit.accepts file context = false) : Passes context chain file file := by
  induction chain with
  | nil => exact .done
  | cons unit rest ih =>
    obtain ⟨hfirst, hrest⟩ := List.forall_mem_cons.mp h
    exact .skipped hfirst (ih hrest)

/-- What there is to tell of a class, whoever has defined it. -/
def DefinedClass.particulars (c : DefinedClass) :
    String × Option String × AccessFlags × Bytes × String :=
  (c.file.name, c.file.superName, c.file.accessFlags, c.file.bytes, c.fingerprint)

theorem DefinedClass.particulars_congr {c d : DefinedClass} (h : c.file = d.file) :
    c.particulars = d.particulars := by
  rw [particulars, particulars, fingerprint, fingerprint, h]

namespace Session

/-! ### What is answered -/

/-- A selective loader is to come to a class of its own accord: it has none of the name yet, and no
interceptor claims the name. -/
structure Afresh (name : String) (s : Session) (id : LoaderId) (loader : SelectiveLoader) :
    Prop where
  here : s.loader? id = some (.selective loader)
  free : loader.table.find? name = none
  unclaimed : ∀ interceptor ∈ loader.interceptors, interceptor.claims name = false

/-- The loader leaves a class that it takes on as it is. -/
def LeavesAsIs (name : String) (s : Session) (id : LoaderId) (loader : SelectiveLoader) : Prop :=
  loader.policy.decide name = .loadUnmodified ∨
    loader.policy.decide name = .modify ∧
      ∀ file, (s.classPathOf loader.entries).find s.files name = .ok (some file) →
        ∀ unit ∈ loader.chain,
          unit.accepts file ⟨name, id, loader.suppressStatic.matchAny name⟩ = false

variable {s t u : Session} {id : LoaderId} {name : String} {loader : SelectiveLoader}

theorem map_file_load_of_host {host : HostLoader} (here : s.loader? id = some (.host host))
    (hfree : host.table.find? name = none) :
    (load id name s).1.map (·.file) = (s.classPathOf host.entries).getNamed s.files name := by
  rw [load_of_host here, loadFromHost, hfree, ClassPath.getNamed, ClassPath.get]
  rcases (s.classPathOf host.entries).find s.files name with e | _ | file
  · rfl
  · rfl
  · by_cases hname : file.name = name
    · simp [hname, Except.map]
    · simp [hname, Except.map]

theorem LeavesAsIs.ne_defer (h : LeavesAsIs name s id loader) :
    loader.policy.decide name ≠ .defer := by
  rcases h with hdecide | ⟨hdecide, -⟩
  · rw [hdecide]
    decide
  · rw [hdecide]
    decide

/-- What the loader makes of the class that is found is the class itself. -/
theorem LeavesAsIs.remake_eq (h : LeavesAsIs name s id loader) {file : ClassFile}
    (hfind : (s.classPathOf loader.entries).find s.files name = .ok (some file)) :
    loader.remake id name file = .ok file := by
  rw [SelectiveLoader.remake]
  rcases h with hdecide | ⟨-, hdeclined⟩
  · rw [Policy.shouldModify, hdecide]
    rfl
  · rw [Chain.apply_of_passes (Chain.passes_of_declined (hdeclined file hfind)), ite_self]

theorem Afresh.map_file_load (hafresh : Afresh name s id loader)
    (hleaves : LeavesAsIs name s id loader) :
    (load id name s).1.map (·.file) = (s.classPathOf loader.entries).getNamed s.files name := by
  obtain ⟨here, hfree, hclaims⟩ := hafresh
  obtain ⟨depth, hload⟩ := load_eq_findSelective here hfree
  rw [hload, findSelective_of_own (find?_claims_eq_none hclaims) hleaves.ne_defer, answer_loadOwned,
    ClassPath.getNamed, ClassPath.get]
  rcases hfind : (s.classPathOf loader.entries).find s.files name with e | _ | file
  · rfl
  · rfl
  · -- the bytes of a file that was read are read as the same file
    have hagrees : file.Agrees := ClassPath.parse_of_find hfind
    rw [← tableOf_of_selective here] at hfree
    simp only [SelectiveLoader.ownAnswer_of_found, hleaves.remake_eq hfind,
      Definition.classIn_whole hagrees name loader.domain hfree]
    by_cases hname : file.name = name
    · simp [hname, Except.map]
    · simp [hname, Except.map]

/-- Three ways to one class, from class paths that hold the same: all of them come to it, or all
fail with the same error. -/
theorem load_ways_agree {holdings : List Holding} {h p m : LoaderId} {host : HostLoader}
    {plain modifying : SelectiveLoader}
    (hhost : s.loader? h = some (.host host)) (hfree : host.table.find? name = none)
    (hplain : Afresh name t p plain) (hunmodified : plain.policy.decide name = .loadUnmodified)
    (hmodifying : Afresh name u m modifying) (hmodify : modifying.policy.decide name = .modify)
    (hdeclined : ∀ file, (u.classPathOf modifying.entries).find u.files name = .ok (some file) →
      ∀ unit ∈ modifying.chain,
        unit.accepts file ⟨name, m, modifying.suppressStatic.matchAny name⟩ = false)
    (hholdings : (s.classPathOf host.entries).holdings = holdings ∧
      (t.classPathOf plain.entries).holdings = holdings ∧
      (u.classPathOf modifying.entries).holdings = holdings)
    (hfiles : t.files = s.files ∧ u.files = s.files) :
    (∃ c d e, (load h name s).1 = .ok c ∧ (load p name t).1 = .ok d ∧ (load m name u).1 = .ok e ∧
      d.particulars = c.particulars ∧ e.particulars = c.particulars) ∨
    ∃ fault, (load h name s).1 = .error fault ∧ (load p name t).1 = .error fault ∧
      (load m name u).1 = .error fault := by
  obtain ⟨hheld, hheld', hheld''⟩ := hholdings
  have hserved := map_file_load_of_host hhost hfree
  have hkept := hplain.map_file_load (.inl hunmodified)
  have hpassed := hmodifying.map_file_load (.inr ⟨hmodify, hdeclined⟩)
  rw [hfiles.1, ClassPath.getNamed_eq_of_holdings (hheld'.trans hheld.symm)] at hkept
  rw [hfiles.2, ClassPath.getNamed_eq_of_holdings (hheld''.trans hheld.symm)] at hpassed
  cases hget : (s.classPathOf host.entries).getNamed s.files name with
  | error fault =>
    rw [hget] at hserved hkept hpassed
    exact .inr ⟨fault, DefinedClass.eq_error_of_map hserved, DefinedClass.eq_error_of_map hkept,
      DefinedClass.eq_error_of_map hpassed⟩
  | ok file =>
    rw [hget] at hserved hkept hpassed
    obtain ⟨c, hc, hcfile⟩ := DefinedClass.exists_of_map_eq_ok hserved
    obtain ⟨d, hd, hdfile⟩ := DefinedClass.exists_of_map_eq_ok hkept
    obtain ⟨e, he, hefile⟩ := DefinedClass.exists_of_map_eq_ok hpassed
    exact .inl ⟨c, d, e, hc, hd, he, DefinedClass.particulars_congr (hdfile.trans hcfile.symm),
      DefinedClass.particulars_congr (hefile.trans hcfile.symm)⟩

/-- A unit that wants no class. -/
def idle : Transformer where
  name := "Idle"
  accepts _ _ := false
  transform file _ := .ok file

/-- Loads the class `A` unmodified, although its chain would open the class. -/
def sparing : SelectiveLoader where
  policy := ⟨[], [], [], [Pattern.ofString "A"]⟩
  suppressStatic := []
  entries := [⟨0⟩]
  chain := [Unseal.transformer]
  deferred := ambient
  domain := {}

/-- Modifies the class `A`, but has nothing to do it with. -/
def idling : SelectiveLoader where
  policy := ⟨[], [], [Pattern.ofString "A"], []⟩
  suppressStatic := []
  entries := [⟨0⟩]
  chain := [idle]
  deferred := ambient
  domain := {}

/-- Both of them, and a host, over a final class. -/
def threefold : Session :=
  { start .empty with
    holdings := [.single "A" (Stub.encode { name := "A", accessFlags := .finalBit })]
    loaders := [.host { entries := [⟨0⟩] }, .selective sparing, .selective idling] }

/-- They come to the same class, which is still final. -/
theorem load_ways_agree_threefold :
    ∃ c d e, (load ⟨0⟩ "A" threefold).1 = .ok c ∧ (load ⟨1⟩ "A" threefold).1 = .ok d ∧
      (load ⟨2⟩ "A" threefold).1 = .ok e ∧
      d.particulars = c.particulars ∧ e.particulars = c.particulars ∧
      c.file.accessFlags = .finalBit := by
  have hok : (load ⟨0⟩ "A" threefold).1.map (·.file.accessFlags) = .ok .finalBit := by
    decide +kernel
  have hplain : Afresh "A" threefold ⟨1⟩ sparing := ⟨rfl, rfl, fun _ hmem => nomatch hmem⟩
  have hmodifying : Afresh "A" threefold ⟨2⟩ idling := ⟨rfl, rfl, fun _ hmem => nomatch hmem⟩
  have hdeclined : ∀ file,
      (threefold.classPathOf idling.entries).find threefold.files "A" = .ok (some file) →
        ∀ unit ∈ idling.chain,
          unit.accepts file ⟨"A", ⟨2⟩, idling.suppressStatic.matchAny "A"⟩ = false := by
    intro file _ unit hunit
    rw [List.mem_singleton.mp hunit]
    rfl
  rcases load_ways_agree (h := ⟨0⟩) rfl rfl hplain (by decide +kernel) hmodifying
    (by decide +kernel) hdeclined ⟨rfl, rfl, rfl⟩ ⟨rfl, rfl⟩ with
    ⟨c, d, e, hc, hd, he, hsame, hsame'⟩ | ⟨fault, hfault, -, -⟩
  · rw [hc] at hok
    exact ⟨c, d, e, hc, hd, he, hsame, hsame', Except.ok.inj hok⟩
  · rw [hfault] at hok
    cases hok

end Session

end Understudy
