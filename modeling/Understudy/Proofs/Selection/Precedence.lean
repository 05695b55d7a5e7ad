import Understudy.Proofs.Selection.Rules

/-!
Which rule gives way to which. A class to load unmodified is modified only where a caller ignores
it, since the rule for such classes then gives way to the patterns that ask to prepare it; so an
appended ignore can bring a class to be modified.

What is modified stays so when more is to be prepared, unless it is then everything that is to be
prepared, to which an ignore is an exception. In the same way, what is to be prepared is modified
whatever the callers ignore, as long as neither a built-in ignore nor a pattern to load unmodified
matches it. Main statement: `decide_of_more_prepared`; what is said of classes to load unmodified
serves sessions.
-/

namespace Understudy

theorem Patterns.match_append_singleton {patterns : Patterns} {pattern : Pattern} {name : String} :
    Match (patterns ++ [pattern]) name ↔ patterns.Match name ∨ pattern.isMatch name = true := by
  simp [Match, or_and_right, exists_or]

/-- What matches every name matches this one. -/
theorem Patterns.match_of_coversAll {patterns : Patterns}
    (h : ∃ pattern ∈ patterns, pattern.coversAll = true) (name : String) : patterns.Match name := by
  obtain ⟨pattern, hpattern, hall⟩ := h
  refine ⟨pattern, hpattern, ?_⟩
  rw [Pattern.isMatch, Pattern.matchChars, eq_of_beq hall]

namespace Policy

variable {policy : Policy} {name : String}

/-! ### Classes to load unmodified -/

/-- Their rule gives way to ignores, and the rule for classes that are named to be prepared does
not. -/
theorem decide_eq_modify_iff_of_loadUnmodified (h : policy.loadUnmodified.Match name) :
    policy.decide name = .modify ↔ ¬ policy.builtin.Match name ∧ policy.ignore.Match name ∧
      policy.prepare.Match name ∧ ¬ ∃ pattern ∈ policy.prepare, pattern.coversAll = true := by
  rw [decide_eq]
  by_cases hbuiltin : policy.builtin.Match name
  · simp [hbuiltin]
  · by_cases hignore : policy.ignore.Match name
    · by_cases hall : ∃ pattern ∈ policy.prepare, pattern.coversAll = true
      · simp [hbuiltin, hignore, hall]
      · simp [hbuiltin, hignore, hall]
    · simp [hbuiltin, h, hignore]

/-- Where no caller ignores them, it does not matter what is to be prepared. -/
theorem decide_of_loadUnmodified_of_not_ignored (h : policy.loadUnmodified.Match name)
    (hignore : ¬ policy.ignore.Match name) :
    policy.decide name = if policy.builtin.Match name then .defer else .loadUnmodified := by
  rw [decide_eq, if_pos (⟨h, hignore⟩ : policy.loadUnmodified.Match name ∧ _)]

theorem not_ignored_of_decide (h : policy.decide name = .loadUnmodified) :
    ¬ policy.ignore.Match name := by
  intro hignore
  rw [decide_eq] at h
  simp only [hignore, not_true_eq_false, and_false, if_false, if_true] at h
  split at h
  · cases h
  · split at h
    · cases h
    · split at h <;> cases h

/-! ### Ignores that were appended -/

/-- What is ignored after some calls was ignored before, or one of them appended an ignore of it. -/
theorem match_ignore_run_iff (calls : List Call) (policy : Policy) (name : String) :
    (run calls policy).2.ignore.Match name ↔ policy.ignore.Match name ∨
      ∃ pattern, Call.addIgnore pattern ∈ calls ∧
        (Pattern.ofString pattern).isMatch name = true := by
  induction calls generalizing policy with
  | nil => simp [run]
  | cons call rest ih =>
    cases call with
    | addIgnore pattern =>
      rw [run, ih, addIgnore, Patterns.match_append_singleton]
      simp [or_and_right, exists_or, or_assoc]
    | decide asked =>
      rw [show (run (.decide asked :: rest) policy).2 = (run rest policy).2 from rfl, ih]
      simp

/-- A class to load unmodified, once ignores have been appended. -/
theorem Extends.decide_eq_modify_iff {later : Policy} (h : Extends policy later)
    (hname : policy.loadUnmodified.Match name) :
    later.decide name = .modify ↔ ¬ policy.builtin.Match name ∧ later.ignore.Match name ∧
      policy.prepare.Match name ∧ ¬ ∃ pattern ∈ policy.prepare, pattern.coversAll = true := by
  obtain ⟨appended, rfl⟩ := h
  exact decide_eq_modify_iff_of_loadUnmodified hname

theorem Extends.decide_of_not_ignored {later : Policy} (h : Extends policy later)
    (hname : policy.loadUnmodified.Match name) (hignore : ¬ later.ignore.Match name)
    (prepare : Patterns) : decide { later with prepare := prepare } name =
      if policy.builtin.Match name then .defer else .loadUnmodified := by
  obtain ⟨appended, rfl⟩ := h
  exact decide_of_loadUnmodified_of_not_ignored hname hignore

/-! ### More to prepare -/

/-- What is left to the last rules, and asked to be prepared, is modified unless it is an exception
to what all are. -/
theorem decide_of_prepared (hbuiltin : ¬ policy.builtin.Match name)
    (hload : ¬ (policy.loadUnmodified.Match name ∧ ¬ policy.ignore.Match name))
    (hprepare : policy.prepare.Match name) : policy.decide name =
      if (∃ pattern ∈ policy.prepare, pattern.coversAll = true) ∧ policy.ignore.Match name
        then .defer else .modify := by
  rw [decide_eq, if_neg hbuiltin, if_neg hload, if_pos hprepare]
  by_cases hall : ∃ pattern ∈ policy.prepare, pattern.coversAll = true
  · simp [hall]
  · simp [hall]

/-- What is modified is left to the last rules, asked to be prepared, and no such exception. -/
theorem of_decide_eq_modify (h : policy.decide name = .modify) :
    ¬ policy.builtin.Match name ∧
      ¬ (policy.loadUnmodified.Match name ∧ ¬ policy.ignore.Match name) ∧
      policy.prepare.Match name ∧
      ¬ ((∃ pattern ∈ policy.prepare, pattern.coversAll = true) ∧ policy.ignore.Match name) := by
  rw [decide_eq] at h
  split at h
  · cases h
  · next hbuiltin =>
    split at h
    · cases h
    · next hload =>
      split at h
      · next hall =>
        split at h
        · cases h
        · next hignore =>
          exact ⟨hbuiltin, hload, Patterns.match_of_coversAll hall name,
            fun hboth => hignore hboth.2⟩
      · next hall =>
        split at h
        · next hprepare => exact ⟨hbuiltin, hload, hprepare, fun hboth => hall hboth.1⟩
        · cases h

/-- Any number of patterns more. -/
theorem decide_of_subset {prepare : Patterns}
    (hmore : ∀ pattern ∈ policy.prepare, pattern ∈ prepare)
    (hmodify : policy.decide name = .modify) :
    decide { policy with prepare := prepare } name =
      if (∃ pattern ∈ prepare, pattern.coversAll = true) ∧ policy.ignore.Match name
        then .defer else .modify := by
  obtain ⟨hbuiltin, hload, ⟨pattern, hpattern, hname⟩, -⟩ := of_decide_eq_modify hmodify
  exact decide_of_prepared hbuiltin hload
    ⟨pattern, hmore pattern hpattern, hname⟩

/-- More patterns to prepare leave a class modified, and so do more ignores, but for the one
exception. -/
theorem decide_of_more_prepared (policy : Policy) (name : String) :
    (∀ pattern prepare, (∀ other, other ∈ prepare ↔ other ∈ policy.prepare ∨ other = pattern) →
      policy.decide name = .modify → decide { policy with prepare := prepare } name =
        if pattern.coversAll = true ∧ policy.ignore.Match name then .defer else .modify) ∧
    (policy.prepare.Match name → ¬ policy.builtin.Match name →
      ¬ policy.loadUnmodified.Match name → ∀ ignore, decide { policy with ignore := ignore } name =
        if (∃ pattern ∈ policy.prepare, pattern.coversAll = true) ∧ ignore.Match name
          then .defer else .modify) := by
  constructor
  · intro pattern prepare hmore hmodify
    obtain ⟨-, -, -, hexception⟩ := of_decide_eq_modify hmodify
    rw [decide_of_subset (fun other hother => (hmore other).mpr (.inl hother)) hmodify]
    have hall : ((∃ other ∈ prepare, other.coversAll = true) ∧ policy.ignore.Match name) ↔
        pattern.coversAll = true ∧ policy.ignore.Match name := by
      constructor
      · rintro ⟨⟨other, hother, hcovers⟩, hignore⟩
        rcases (hmore other).mp hother with hbefore | rfl
        · exact absurd ⟨⟨other, hbefore, hcovers⟩, hignore⟩ hexception
        · exact ⟨hcovers, hignore⟩
      · rintro ⟨hcovers, hignore⟩
        exact ⟨⟨pattern, (hmore pattern).mpr (.inr rfl), hcovers⟩, hignore⟩
    simp only [hall]
  · intro hprepare hbuiltin hload ignore
    exact decide_of_prepared hbuiltin
      (fun hboth => hload hboth.1) hprepare

/-- A policy that prepares a class which it is told to ignore. -/
def preparing : Policy where
  builtin := Patterns.ofStrings defaultIgnored
  ignore := Patterns.ofStrings ["*mytest*"]
  prepare := Patterns.ofStrings ["org.mytest.myclass"]
  loadUnmodified := []

/-- One more class to prepare leaves it modified. -/
theorem decide_of_more_prepared_preparing :
    decide { preparing with prepare := preparing.prepare ++ [Pattern.ofString "org.ikk.Jux"] }
        "org.mytest.myclass" = .modify ∧
      ∀ ignore, decide { preparing with ignore := ignore } "org.mytest.myclass" = .modify := by
  obtain ⟨hmore, hnamed⟩ := decide_of_more_prepared preparing "org.mytest.myclass"
  constructor
  · rw [hmore (Pattern.ofString "org.ikk.Jux") _ (by simp) (by decide +kernel)]
    decide +kernel
  · intro ignore
    rw [hnamed (by decide +kernel) (by decide +kernel) (by decide +kernel) ignore]
    exact if_neg fun hboth => absurd hboth.1 (by decide +kernel)

/-- The sentinel that asks to modify all brings it to be deferred. -/
theorem decide_of_sentinel_preparing :
    preparing.decide "org.mytest.myclass" = .modify ∧
      decide { preparing with prepare := preparing.prepare ++ [Pattern.ofString "*"] }
        "org.mytest.myclass" = .defer := by
  decide +kernel

end Policy

end Understudy
