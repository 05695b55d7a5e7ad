import Understudy.Proofs.ClassFile.Edits
import Understudy.Transformer.Unseal

/-!
How a class passes a chain: every unit skips it or changes it, until one fails or all are behind it.
Units that only read and edit class files hand on files that tell what their bytes tell.
-/

namespace Understudy

/-- What can be made of a class file by reading and editing: one begins with the file itself, or
with whatever is read from some bytes, and edits it. -/
inductive ClassFile.MadeFrom (given : ClassFile) : ClassFile → Prop
  | given : MadeFrom given given
  | parsed {bytes : Bytes} {file : ClassFile} (h : ClassFile.parse bytes = .ok file) :
    MadeFrom given file
  | edited {file : ClassFile} (h : MadeFrom given file) (edit : ClassFile.Edit) :
    MadeFrom given (edit.perform file).2

theorem ClassFile.MadeFrom.agrees {given file : ClassFile} (h : ClassFile.MadeFrom given file)
    (hgiven : given.Agrees) : file.Agrees := by
  induction h with
  | given => exact hgiven
  | parsed h => exact agrees_of_parse h
  | edited _ edit ih => exact ih.perform edit

/-- A unit that makes its results by reading and editing class files alone. -/
def Transformer.OnlyEdits (unit : Transformer) : Prop :=
  ∀ given context result, unit.transform given context = .ok result →
    ClassFile.MadeFrom given result

theorem Unseal.onlyEdits_transformer : Unseal.transformer.OnlyEdits := by
  intro given context result h
  change given.withAccessFlags _ = .ok result at h
  rw [ClassFile.withAccessFlags] at h
  have hedited : ClassFile.MadeFrom given _ := .edited .given
    (.setAccessFlags (given.accessFlags.difference .finalBit))
  rw [ClassFile.Edit.perform] at hedited
  rcases hset : given.setAccessFlags (given.accessFlags.difference .finalBit) with ⟨_ | _, file⟩
  · rw [hset] at h
    cases h
  · rw [hset] at h hedited
    cases h
    exact hedited

namespace Chain

/-- A class passes a chain: a unit that does not accept the class as it stands is skipped, and any
other one succeeds in changing it. -/
inductive Passes (context : Transformer.Context) : Chain → ClassFile → ClassFile → Prop
  | done {file : ClassFile} : Passes context [] file file
  | skipped {unit : Transformer} {rest : Chain} {file result : ClassFile}
    (declined : unit.accepts file context = false) (behind : Passes context rest file result) :
    Passes context (unit :: rest) file result
  | changed {unit : Transformer} {rest : Chain} {file changed result : ClassFile}
    (accepted : unit.accepts file context = true)
    (transformed : unit.transform file context = .ok changed)
    (behind : Passes context rest changed result) : Passes context (unit :: rest) file result

/-- A class passes the units in front of one that accepts it and fails. -/
def FailsAt (context : Transformer.Context) (chain : Chain) (file : ClassFile)
    (unit : Transformer) (cause : Error) : Prop :=
  ∃ before behind given, chain = before ++ unit :: behind ∧ Passes context before file given ∧
    unit.accepts given context = true ∧ unit.transform given context = .error cause

variable {context : Transformer.Context} {unit : Transformer} {file : ClassFile}

/-! ### The first unit of a chain -/

theorem apply_cons_of_declined (declined : unit.accepts file context = false) (rest : Chain) :
    apply (unit :: rest) file context =
      (⟨unit, context, file, false⟩ :: (rest.apply file context).1,
        (rest.apply file context).2) := by
  rw [apply, if_neg (by simp [declined])]

theorem apply_cons_of_changed {changed : ClassFile} (accepted : unit.accepts file context = true)
    (transformed : unit.transform file context = .ok changed) (rest : Chain) :
    apply (unit :: rest) file context =
      (⟨unit, context, file, true⟩ :: (rest.apply changed context).1,
        (rest.apply changed context).2) := by
  simp only [apply, accepted, if_true, transformed]

theorem apply_cons_of_failed {cause : Error} (accepted : unit.accepts file context = true)
    (failed : unit.transform file context = .error cause) (rest : Chain) :
    apply (unit :: rest) file context =
      ([⟨unit, context, file, true⟩],
        .error (.transformation context.className unit.name cause)) := by
  simp only [apply, accepted, if_true, failed]

/-! ### Whole chains -/

theorem apply_of_passes {chain : Chain} {file result : ClassFile}
    (h : Passes context chain file result) : (chain.apply file context).2 = .ok result := by
  induction h with
  | done => rfl
  | skipped declined _ ih => rw [apply_cons_of_declined declined, ih]
  | changed accepted transformed _ ih => rw [apply_cons_of_changed accepted transformed, ih]

theorem FailsAt.skipped {chain : Chain} {file : ClassFile} {first unit : Transformer}
    {cause : Error} (h : FailsAt context chain file unit cause)
    (declined : first.accepts file context = false) :
    FailsAt context (first :: chain) file unit cause := by
  obtain ⟨before, behind, given, rfl, hpasses, hfails⟩ := h
  exact ⟨first :: before, behind, given, rfl, .skipped declined hpasses, hfails⟩

theorem FailsAt.changed {chain : Chain} {file changed : ClassFile} {first unit : Transformer}
    {cause : Error} (h : FailsAt context chain changed unit cause)
    (accepted : first.accepts file context = true)
    (transformed : first.transform file context = .ok changed) :
    FailsAt context (first :: chain) file unit cause := by
  obtain ⟨before, behind, given, rfl, hpasses, hfails⟩ := h
  exact ⟨first :: before, behind, given, rfl, .changed accepted transformed hpasses, hfails⟩

/-- By induction on the units that are passed. -/
theorem apply_of_failsAt {chain : Chain} {file : ClassFile} {unit : Transformer} {cause : Error}
    (h : FailsAt context chain file unit cause) :
    (chain.apply file context).2 = .error (.transformation context.className unit.name cause) := by
  obtain ⟨before, behind, given, rfl, hpasses, accepted, failed⟩ := h
  induction hpasses with
  | done => rw [List.nil_append, apply_cons_of_failed accepted failed]
  | skipped declined _ ih =>
    rw [List.cons_append, apply_cons_of_declined declined, ih accepted failed]
  | changed haccepted transformed _ ih =>
    rw [List.cons_append, apply_cons_of_changed haccepted transformed, ih accepted failed]

/-- A class passes a chain, or some unit fails. -/
theorem passes_or_failsAt (context : Transformer.Context) (chain : Chain) (file : ClassFile) :
    (∃ result, Passes context chain file result) ∨
      ∃ unit cause, FailsAt context chain file unit cause := by
  induction chain generalizing file with
  | nil => exact .inl ⟨file, .done⟩
  | cons unit rest ih =>
    cases accepted : unit.accepts file context with
    | false =>
      rcases ih file with ⟨result, hpasses⟩ | ⟨failing, cause, hfails⟩
      · exact .inl ⟨result, .skipped accepted hpasses⟩
      · exact .inr ⟨failing, cause, hfails.skipped accepted⟩
    | true =>
      cases transformed : unit.transform file context with
      | error cause => exact .inr ⟨unit, cause, [], rest, file, rfl, .done, accepted, transformed⟩
      | ok changed =>
        rcases ih changed with ⟨result, hpasses⟩ | ⟨failing, cause, hfails⟩
        · exact .inl ⟨result, .changed accepted transformed hpasses⟩
        · exact .inr ⟨failing, cause, hfails.changed accepted transformed⟩

/-- Every unit is asked, and run, in the context of the load. -/
theorem context_of_mem_visits {chain : Chain} {file : ClassFile} {visit : Visit}
    (h : visit ∈ (chain.apply file context).1) : visit.context = context := by
  induction chain generalizing file with
  | nil => cases h
  | cons unit rest ih =>
    rw [apply] at h
    split at h
    · split at h
      · rw [List.mem_singleton.mp h]
      · rcases List.mem_cons.mp h with rfl | hrest
        · rfl
        · exact ih hrest
    · rcases List.mem_cons.mp h with rfl | hrest
      · rfl
      · exact ih hrest

/-- Units are asked from the first one on, none of them twice. -/
theorem units_visits_prefix (context : Transformer.Context) (chain : Chain) (file : ClassFile) :
    (chain.apply file context).1.map (·.unit) <+: chain := by
  induction chain generalizing file with
  | nil => exact List.prefix_refl []
  | cons unit rest ih =>
    rw [apply]
    split
    · split
      · exact List.prefix_append [unit] rest
      · next changed _ => exact List.cons_prefix_cons.mpr ⟨rfl, ih changed⟩
    · exact List.cons_prefix_cons.mpr ⟨rfl, ih file⟩

/-- What passes units that only read and edit tells what its bytes tell, if it did so before. -/
theorem Passes.agrees {chain : Chain} {file result : ClassFile}
    (h : Passes context chain file result) (hedits : ∀ unit ∈ chain, unit.OnlyEdits)
    (hfile : file.Agrees) : result.Agrees := by
  induction h with
  | done => exact hfile
  | skipped _ _ ih => exact ih (fun unit hunit => hedits unit (List.mem_cons_of_mem _ hunit)) hfile
  | changed _ transformed _ ih =>
    have hmade := hedits _ List.mem_cons_self _ _ _ transformed
    exact ih (fun unit hunit => hedits unit (List.mem_cons_of_mem _ hunit)) (hmade.agrees hfile)

end Chain

end Understudy
