import Understudy.Selection.Lifetime

/-!
The rules of a policy, and what becomes of its decisions while ignores are appended to it. At every
moment the decision is that of the first rule that applies, and the order in which the patterns are
listed does not count. In the course of the calls it changes at most once. Deferring is for good;
what is modified can only come to be deferred, and only where everything is to be modified; what a
built-in ignore matches is deferred at every moment. Main statement: `run_decisions`.
-/

namespace Understudy

/-- Some pattern of a list matches a name. -/
def Patterns.Match (patterns : Patterns) (name : String) : Prop :=
  ∃ pattern ∈ patterns, pattern.isMatch name = true

namespace Patterns

theorem matchAny_eq_true_iff {patterns : Patterns} {name : String} :
    patterns.matchAny name = true ↔ patterns.Match name := by
  simp [matchAny, Match]

theorem matchAny_eq_false_iff {patterns : Patterns} {name : String} :
    patterns.matchAny name = false ↔ ¬ patterns.Match name := by
  rw [← matchAny_eq_true_iff, Bool.not_eq_true]

instance (patterns : Patterns) (name : String) : Decidable (patterns.Match name) :=
  decidable_of_iff _ matchAny_eq_true_iff

theorem match_congr {a b : Patterns} (h : ∀ pattern, pattern ∈ a ↔ pattern ∈ b) (name : String) :
    a.Match name ↔ b.Match name := by
  simp only [Match, h]

theorem coverAll_eq_true_iff {patterns : Patterns} :
    patterns.coverAll = true ↔ ∃ pattern ∈ patterns, pattern.coversAll = true := by
  simp [coverAll]

end Patterns

namespace Policy

/-! ### The rules -/

/-- The rules that decide. -/
inductive Rule where
  | builtinIgnored
  | loadUnmodified
  | modifyAll
  | prepared
  | otherwise
  deriving DecidableEq, Repr

namespace Rule

/-- The rules in the order in which they are tried. -/
def order : List Rule := [builtinIgnored, loadUnmodified, modifyAll, prepared, otherwise]

/-- Whether a rule is for a name. -/
def Applies (policy : Policy) (name : String) : Rule → Prop
  | builtinIgnored => policy.builtin.Match name
  | loadUnmodified => policy.loadUnmodified.Match name ∧ ¬ policy.ignore.Match name
  | modifyAll => ∃ pattern ∈ policy.prepare, pattern.coversAll = true
  | prepared => policy.prepare.Match name
  | otherwise => True

/-- What a rule decides for a name. -/
def Decides (policy : Policy) (name : String) : Rule → Decision → Prop
  | builtinIgnored, decision => decision = .defer
  | loadUnmodified, decision => decision = .loadUnmodified
  | modifyAll, decision =>
    (policy.ignore.Match name → decision = .defer) ∧
      (¬ policy.ignore.Match name → decision = .modify)
  | prepared, decision => decision = .modify
  | otherwise, decision => decision = .defer

/-- A rule is the first in order that is for a name. -/
def IsFirst (policy : Policy) (name : String) (rule : Rule) : Prop :=
  ∃ before behind, order = before ++ rule :: behind ∧ rule.Applies policy name ∧
    ∀ earlier ∈ before, ¬ earlier.Applies policy name

end Rule

/-- The decision by what the patterns match. -/
theorem decide_eq (policy : Policy) (name : String) : policy.decide name =
    if policy.builtin.Match name then .defer
    else if policy.loadUnmodified.Match name ∧ ¬ policy.ignore.Match name then .loadUnmodified
    else if ∃ pattern ∈ policy.prepare, pattern.coversAll = true then
      if policy.ignore.Match name then .defer else .modify
    else if policy.prepare.Match name then .modify
    else .defer := by
  simp only [decide, modifiesAll, Patterns.matchAny_eq_true_iff, Patterns.coverAll_eq_true_iff,
    Bool.and_eq_true, Bool.not_eq_true', Patterns.matchAny_eq_false_iff]

/-- The decision is that of the first rule that applies. -/
theorem exists_isFirst_decides (policy : Policy) (name : String) :
    ∃ rule : Rule, rule.IsFirst policy name ∧ rule.Decides policy name (policy.decide name) := by
  rw [decide_eq]
  split
  · next hbuiltin =>
    exact ⟨.builtinIgnored, ⟨[], _, rfl, hbuiltin, by simp⟩, rfl⟩
  · next hbuiltin =>
    split
    · next hload =>
      exact ⟨.loadUnmodified, ⟨[.builtinIgnored], _, rfl, hload, by simpa [Rule.Applies]⟩, rfl⟩
    · next hload =>
      split
      · next hall =>
        refine ⟨.modifyAll, ⟨[.builtinIgnored, .loadUnmodified], _, rfl, hall, ?_⟩, ?_⟩
        · simp [Rule.Applies, hbuiltin, hload]
        · constructor <;> intro hignore <;> simp [hignore]
      · next hall =>
        split
        · next hprepared =>
          refine ⟨.prepared,
            ⟨[.builtinIgnored, .loadUnmodified, .modifyAll], _, rfl, hprepared, ?_⟩, rfl⟩
          simp [Rule.Applies, hbuiltin, hload, hall]
        · next hprepared =>
          refine ⟨.otherwise, ⟨[.builtinIgnored, .loadUnmodified, .modifyAll, .prepared], [], rfl,
            trivial, ?_⟩, rfl⟩
          simp [Rule.Applies, hbuiltin, hload, hall, hprepared]

/-- Two policies have the same patterns, in whatever order and number. -/
structure SamePatterns (a b : Policy) : Prop where
  builtin : ∀ pattern, pattern ∈ a.builtin ↔ pattern ∈ b.builtin
  ignore : ∀ pattern, pattern ∈ a.ignore ↔ pattern ∈ b.ignore
  prepare : ∀ pattern, pattern ∈ a.prepare ↔ pattern ∈ b.prepare
  loadUnmodified : ∀ pattern, pattern ∈ a.loadUnmodified ↔ pattern ∈ b.loadUnmodified

theorem SamePatterns.decide_eq {a b : Policy} (h : SamePatterns a b) (name : String) :
    a.decide name = b.decide name := by
  simp only [Policy.decide_eq, Patterns.match_congr h.builtin, Patterns.match_congr h.ignore,
    Patterns.match_congr h.prepare, Patterns.match_congr h.loadUnmodified, h.prepare]

/-! ### One ignore more, and any number of them -/

/-- A policy that differs from another one by ignores appended to it. -/
def Extends (earlier later : Policy) : Prop :=
  ∃ appended : Patterns, later = { earlier with ignore := earlier.ignore ++ appended }

theorem Extends.refl (policy : Policy) : Extends policy policy := ⟨[], by simp⟩

theorem Extends.trans {a b c : Policy} (hfirst : Extends a b) (hsecond : Extends b c) :
    Extends a c := by
  obtain ⟨first, rfl⟩ := hfirst
  obtain ⟨second, rfl⟩ := hsecond
  exact ⟨first ++ second, by simp⟩

theorem extends_addIgnore (policy : Policy) (pattern : String) :
    Extends policy (policy.addIgnore pattern) := ⟨_, rfl⟩

theorem extends_run (calls : List Call) (policy : Policy) :
    Extends policy (run calls policy).2 := by
  induction calls generalizing policy with
  | nil => exact .refl policy
  | cons call rest ih =>
    cases call with
    | addIgnore pattern => exact (extends_addIgnore policy pattern).trans (ih _)
    | decide name => exact ih policy

/-- What is ignored stays ignored. -/
theorem Extends.match_ignore {a b : Policy} (h : Extends a b) {name : String}
    (hmatch : a.ignore.Match name) : b.ignore.Match name := by
  obtain ⟨appended, rfl⟩ := h
  obtain ⟨pattern, hpattern, hname⟩ := hmatch
  exact ⟨pattern, List.mem_append_left _ hpattern, hname⟩

/-- Appended ignores tell only by whether the name is ignored. -/
theorem Extends.decide_eq_of_iff {a b : Policy} (h : Extends a b) {name : String}
    (hignore : a.ignore.Match name ↔ b.ignore.Match name) : b.decide name = a.decide name := by
  obtain ⟨appended, rfl⟩ := h
  simp only [Policy.decide_eq, hignore]

/-- A decision that has changed has done so because the name came to be ignored. -/
theorem Extends.match_of_ne {a b : Policy} (h : Extends a b) {name : String}
    (hne : b.decide name ≠ a.decide name) : ¬ a.ignore.Match name ∧ b.ignore.Match name := by
  by_cases ha : a.ignore.Match name
  · exact absurd (h.decide_eq_of_iff (iff_of_true ha (h.match_ignore ha))) hne
  · by_cases hb : b.ignore.Match name
    · exact ⟨ha, hb⟩
    · exact absurd (h.decide_eq_of_iff (iff_of_false ha hb)) hne

/-- A decision that has changed does not change again. -/
theorem Extends.settled {a b c : Policy} (hab : Extends a b) (hbc : Extends b c) {name : String}
    (hne : b.decide name ≠ a.decide name) : c.decide name = b.decide name := by
  obtain ⟨-, hignored⟩ := hab.match_of_ne hne
  exact hbc.decide_eq_of_iff (iff_of_true hignored (hbc.match_ignore hignored))

/-- The ways in which a decision can change. -/
theorem Extends.change {a b : Policy} (h : Extends a b) {name : String}
    (hne : b.decide name ≠ a.decide name) :
    a.decide name = .loadUnmodified ∨
      (a.decide name = .modify ∧ b.decide name = .defer ∧
        ∃ pattern ∈ a.prepare, pattern.coversAll = true) := by
  obtain ⟨ha, hb⟩ := h.match_of_ne hne
  obtain ⟨appended, rfl⟩ := h
  simp only [Policy.decide_eq, ha, hb, not_false_eq_true, not_true_eq_false, and_true, and_false,
    if_false, if_true] at hne ⊢
  by_cases hbuiltin : a.builtin.Match name
  · simp [hbuiltin] at hne
  · by_cases hload : a.loadUnmodified.Match name
    · exact .inl (by simp [hbuiltin, hload])
    · by_cases hall : ∃ pattern ∈ a.prepare, pattern.coversAll = true
      · exact .inr (by simp [hbuiltin, hload, hall])
      · simp [hbuiltin, hload, hall] at hne

/-! ### Whole lifetimes -/

/-- By induction on the calls: once the decision has changed, it is the last one. -/
theorem exists_decisionsOn_eq (name : String) (calls : List Call) (policy : Policy) :
    ∃ before after, decisionsOn name calls policy =
      List.replicate before (policy.decide name) ++
        List.replicate after ((run calls policy).2.decide name) := by
  induction calls generalizing policy with
  | nil => exact ⟨0, 0, rfl⟩
  | cons call rest ih =>
    cases call with
    | addIgnore pattern =>
      obtain ⟨before, after, hrest⟩ := ih (policy.addIgnore pattern)
      have hadd := extends_addIgnore policy pattern
      change ∃ _ _, decisionsOn name rest (policy.addIgnore pattern) = _
      by_cases hsame : (policy.addIgnore pattern).decide name = policy.decide name
      · exact ⟨before, after, by rw [hrest, hsame]; rfl⟩
      · have hlast := hadd.settled (extends_run rest _) hsame
        refine ⟨0, before + after, ?_⟩
        rw [hrest, ← hlast, List.replicate_append_replicate]
        rfl
    | decide asked =>
      obtain ⟨before, after, hrest⟩ := ih policy
      by_cases hasked : asked = name
      · refine ⟨before + 1, after, ?_⟩
        have hcons : decisionsOn name (.decide asked :: rest) policy =
            policy.decide name :: decisionsOn name rest policy := by
          simp [decisionsOn, run, hasked]
        rw [hcons, hrest, List.replicate_succ, List.cons_append]
        rfl
      · refine ⟨before, after, ?_⟩
        have hcons : decisionsOn name (.decide asked :: rest) policy =
            decisionsOn name rest policy := by
          simp [decisionsOn, run, hasked]
        rw [hcons, hrest]
        rfl

/-- The decisions of a policy over its lifetime, for any four lists of patterns, any calls and any
name. -/
theorem run_decisions (policy : Policy) (calls : List Call) (name : String) :
    let last := (run calls policy).2
    (∃ rule : Rule, rule.IsFirst last name ∧ rule.Decides last name (last.decide name)) ∧
    (∀ other, SamePatterns last other → other.decide name = last.decide name) ∧
    (∃ before after, decisionsOn name calls policy =
      List.replicate before (policy.decide name) ++ List.replicate after (last.decide name)) ∧
    (last.decide name ≠ policy.decide name →
      ∀ more, (run more last).2.decide name = last.decide name) ∧
    (policy.decide name = .defer → last.decide name = .defer) ∧
    (policy.decide name = .modify → last.decide name = .modify ∨
      (last.decide name = .defer ∧ ∃ pattern ∈ policy.prepare, pattern.coversAll = true)) ∧
    (policy.builtin.Match name → last.decide name = .defer) := by
  intro last
  have hextends : Extends policy last := extends_run calls policy
  refine ⟨exists_isFirst_decides last name, fun other h => (h.decide_eq name).symm,
    exists_decisionsOn_eq name calls policy,
    fun hne more => hextends.settled (extends_run more last) hne, ?_, ?_, ?_⟩
  · intro hdefer
    by_cases hsame : last.decide name = policy.decide name
    · exact hsame.trans hdefer
    · rcases hextends.change hsame with h | ⟨h, -⟩ <;> rw [hdefer] at h <;> cases h
  · intro hmodify
    by_cases hsame : last.decide name = policy.decide name
    · exact .inl (hsame.trans hmodify)
    · rcases hextends.change hsame with h | ⟨-, hdefer, hall⟩
      · rw [hmodify] at h
        cases h
      · exact .inr ⟨hdefer, hall⟩
  · intro hbuiltin
    obtain ⟨appended, hlast⟩ := hextends
    rw [hlast, Policy.decide_eq, if_pos hbuiltin]

/-- A policy that modifies everything but the platform's own classes. -/
def modifying : Policy where
  builtin := Patterns.ofStrings defaultIgnored
  ignore := []
  prepare := Patterns.ofStrings ["*"]
  loadUnmodified := Patterns.ofStrings ["lib."]

/-- It modifies a class until the class is ignored, and defers it from then on. -/
theorem run_decisions_modifying :
    modifying.decide "app.Main" = .modify ∧
      ∀ more, (run more (run [.decide "app.Main", .addIgnore "app."] modifying).2).2.decide
        "app.Main" = .defer := by
  have hbefore : modifying.decide "app.Main" = .modify := by decide +kernel
  have hafter : (run [.decide "app.Main", .addIgnore "app."] modifying).2.decide "app.Main" =
      .defer := by decide +kernel
  have hlifetime := run_decisions modifying [.decide "app.Main", .addIgnore "app."] "app.Main"
  refine ⟨hbefore, fun more => ?_⟩
  rw [hlifetime.2.2.2.1 (by rw [hbefore, hafter]; decide) more, hafter]

end Policy

end Understudy
