import Understudy.Proofs.Transformer.Passes

/-!
Chains in sequence. Passing one chain and then another is passing both as one, visit by visit, and
every unit is visited with what the units before it made of the class, until one fails: then the
units before it have all been visited, those behind it have not, and the failure names the class of
the load, the unit, and its own failure. In one pass a unit is asked at most once and run at most
once, so whatever a unit remembers from other calls, it is some fixed unit at its place in the
chain. Main statement: `apply_in_sequence`.
-/

namespace Understudy

/-- The unit took the class at this visit and failed to change it. -/
def Visit.FailsWith (visit : Visit) (cause : Error) : Prop :=
  visit.accepted = true ∧ visit.unit.transform visit.given visit.context = .error cause

namespace Chain

variable {context : Transformer.Context} {unit : Transformer} {chain : Chain}
  {file : ClassFile} {cause : Error}

/-- How a pass goes on with another chain: not at all if it has failed, and otherwise with what has
come out so far. -/
def andThen (pass : List Visit × Except Error ClassFile) (behind : Chain)
    (context : Transformer.Context) : List Visit × Except Error ClassFile :=
  match pass.2 with
  | .error e => (pass.1, .error e)
  | .ok changed =>
    (pass.1 ++ (behind.apply changed context).1, (behind.apply changed context).2)

theorem andThen_cons (visit : Visit) (visits : List Visit) (result : Except Error ClassFile)
    (behind : Chain) : andThen (visit :: visits, result) behind context =
      (visit :: (andThen (visits, result) behind context).1,
        (andThen (visits, result) behind context).2) := by
  cases result <;> rfl

theorem apply_append (chain behind : Chain) (file : ClassFile) :
    (chain ++ behind).apply file context = andThen (chain.apply file context) behind context := by
  induction chain generalizing file with
  | nil => rfl
  | cons unit rest ih =>
    rw [List.cons_append]
    cases accepted : unit.accepts file context with
    | false =>
      rw [apply_cons_of_declined accepted, apply_cons_of_declined accepted, andThen_cons, ih]
    | true =>
      cases transformed : unit.transform file context with
      | error cause =>
        rw [apply_cons_of_failed accepted transformed, apply_cons_of_failed accepted transformed,
          andThen]
      | ok changed =>
        rw [apply_cons_of_changed accepted transformed, apply_cons_of_changed accepted transformed,
          andThen_cons, ih]

/-- The n-th visit is to the n-th unit, with what those before it have made of the class. -/
theorem of_getElem?_visits {n : Nat} {visit : Visit}
    (h : (chain.apply file context).1[n]? = some visit) :
    chain[n]? = some visit.unit ∧ visit.context = context ∧
      Passes context (chain.take n) file visit.given ∧
      visit.accepted = visit.unit.accepts visit.given context := by
  induction chain generalizing file n with
  | nil => simp [apply] at h
  | cons unit rest ih =>
    cases accepted : unit.accepts file context with
    | false =>
      rw [apply_cons_of_declined accepted] at h
      cases n with
      | zero =>
        obtain rfl := Option.some.inj h
        exact ⟨rfl, rfl, .done, accepted.symm⟩
      | succ n =>
        obtain ⟨hunit, hcontext, hpasses, haccepted⟩ := ih h
        exact ⟨hunit, hcontext, .skipped accepted hpasses, haccepted⟩
    | true =>
      cases transformed : unit.transform file context with
      | error cause =>
        rw [apply_cons_of_failed accepted transformed] at h
        cases n with
        | zero =>
          obtain rfl := Option.some.inj h
          exact ⟨rfl, rfl, .done, accepted.symm⟩
        | succ n => simp at h
      | ok changed =>
        rw [apply_cons_of_changed accepted transformed] at h
        cases n with
        | zero =>
          obtain rfl := Option.some.inj h
          exact ⟨rfl, rfl, .done, accepted.symm⟩
        | succ n =>
          obtain ⟨hunit, hcontext, hpasses, haccepted⟩ := ih h
          exact ⟨hunit, hcontext, .changed accepted transformed hpasses, haccepted⟩

/-- A chain that is passed has all its units visited, and none of them fails. -/
theorem visits_of_passes {result : ClassFile} (h : Passes context chain file result) :
    (chain.apply file context).1.map (·.unit) = chain ∧
      ∀ visit ∈ (chain.apply file context).1, ∀ cause, ¬ visit.FailsWith cause := by
  induction h with
  | done => simp [apply]
  | skipped declined _ ih =>
    rw [apply_cons_of_declined declined]
    refine ⟨congrArg (List.cons _) ih.1, List.forall_mem_cons.mpr ⟨?_, ih.2⟩⟩
    exact fun cause hfails => Bool.false_ne_true hfails.1
  | changed accepted transformed _ ih =>
    rw [apply_cons_of_changed accepted transformed]
    refine ⟨congrArg (List.cons _) ih.1, List.forall_mem_cons.mpr ⟨?_, ih.2⟩⟩
    intro cause hfails
    rw [Visit.FailsWith, transformed] at hfails
    cases hfails.2

/-- The units in front of one that fails are visited as in a pass of their own, and then it is. -/
theorem apply_of_fails {before : Chain} {given : ClassFile}
    (passed : Passes context before file given) (accepted : unit.accepts given context = true)
    (failed : unit.transform given context = .error cause) (behind : Chain) :
    (before ++ unit :: behind).apply file context =
      ((before.apply file context).1 ++ [⟨unit, context, given, true⟩],
        .error (.transformation context.className unit.name cause)) := by
  rw [apply_append, andThen, apply_of_passes passed]
  dsimp only
  rw [apply_cons_of_failed accepted failed]

/-- How a class passes a chain with more units behind it, and which units it visits with what. -/
theorem apply_in_sequence (context : Transformer.Context) (chain : Chain) (file : ClassFile) :
    let visits := (chain.apply file context).1
    let result := (chain.apply file context).2
    (∀ behind, (chain ++ behind).apply file context = andThen (visits, result) behind context) ∧
    (∀ n visit, visits[n]? = some visit → chain[n]? = some visit.unit ∧ visit.context = context ∧
      Passes context (chain.take n) file visit.given ∧
      visit.accepted = visit.unit.accepts visit.given context) ∧
    (∀ out, result = .ok out → Passes context chain file out ∧ visits.map (·.unit) = chain ∧
      ∀ visit ∈ visits, ∀ cause, ¬ visit.FailsWith cause) ∧
    ∀ e, result = .error e → ∃ earlier last behind cause, visits = earlier ++ [last] ∧
      chain = earlier.map (·.unit) ++ last.unit :: behind ∧
      last.FailsWith cause ∧ (∀ visit ∈ earlier, ∀ cause, ¬ visit.FailsWith cause) ∧
      e = .transformation context.className last.unit.name cause := by
  intro visits result
  refine ⟨fun behind => apply_append chain behind file, fun n visit hvisit =>
    of_getElem?_visits hvisit, fun out hout => ?_, fun e he => ?_⟩
  · rcases passes_or_failsAt context chain file with ⟨other, hpasses⟩ | ⟨unit, cause, hfails⟩
    · obtain rfl : other = out :=
        Except.ok.inj ((apply_of_passes hpasses).symm.trans hout)
      exact ⟨hpasses, visits_of_passes hpasses⟩
    · cases (apply_of_failsAt hfails).symm.trans hout
  · rcases passes_or_failsAt context chain file with ⟨out, hpasses⟩ | ⟨unit, cause, hfails⟩
    · cases (apply_of_passes hpasses).symm.trans he
    · obtain ⟨before, behind, given, rfl, hpasses, accepted, failed⟩ := hfails
      have hpass := apply_of_fails hpasses accepted failed behind
      obtain ⟨hunits, hfree⟩ := visits_of_passes hpasses
      refine ⟨(before.apply file context).1, ⟨unit, context, given, true⟩, behind, cause,
        congrArg Prod.fst hpass, by rw [hunits], ⟨rfl, failed⟩, hfree, ?_⟩
      exact Except.error.inj (he.symm.trans (congrArg Prod.snd hpass))

/-- A unit that takes every class and fails. -/
def refusing : Transformer where
  name := "refusing"
  accepts _ _ := true
  transform _ _ := .error .outOfBounds

/-- A class that is not final is none for the first unit, and the second one fails; the third one is
not asked. -/
theorem apply_in_sequence_refusing :
    let chain : Chain := [Unseal.transformer, refusing, Unseal.transformer]
    let context : Transformer.Context := ⟨"A", ⟨1⟩, false⟩
    let file : ClassFile := ⟨[], "A", none, ⟨52, 0⟩, ⟨1⟩, 0⟩
    let failure : Error := .transformation "A" "refusing" .outOfBounds
    (chain.apply file context).2 = .error failure ∧
      (chain.apply file context).1[0]? = some ⟨Unseal.transformer, context, file, false⟩ ∧
      Passes context [] file file ∧
      ∃ earlier last behind cause, (chain.apply file context).1 = earlier ++ [last] ∧
        chain = earlier.map (·.unit) ++ last.unit :: behind ∧ last.FailsWith cause ∧
        failure = .transformation "A" last.unit.name cause := by
  intro chain context file failure
  have hdeclined : Unseal.transformer.accepts file context = false := by decide
  have hpass : chain.apply file context =
      ([⟨Unseal.transformer, context, file, false⟩, ⟨refusing, context, file, true⟩],
        .error failure) := by
    rw [apply_cons_of_declined hdeclined, apply_cons_of_failed rfl rfl]
    rfl
  have hfailed : (chain.apply file context).2 = .error failure := by rw [hpass]
  have hfirst : (chain.apply file context).1[0]? =
      some ⟨Unseal.transformer, context, file, false⟩ := by rw [hpass]; rfl
  obtain ⟨-, hvisit, -, herror⟩ := apply_in_sequence context chain file
  obtain ⟨earlier, last, behind, cause, hvisits, hchain, hfails, -, hfailure⟩ :=
    herror failure hfailed
  exact ⟨hfailed, hfirst, (hvisit 0 _ hfirst).2.2.1, earlier, last, behind, cause, hvisits, hchain,
    hfails, hfailure⟩

end Chain

end Understudy
