import Understudy.Proofs.Session.Policies

/-!
Classes to load unmodified, in the policy and in the loader. No pattern that asks to prepare them
tells as long as no caller ignores them. Where a caller does, the rule that asks to load them
unmodified gives way, and a pattern that asks to prepare them has them pass through the chain,
unless such a pattern is stars alone. So where a class comes to be modified that was to be loaded
unmodified at first, an ignore that was appended meanwhile matches it. Main statement:
`loadUnmodified_gives_way`.
-/

namespace Understudy.Session

/-- When a class that the policy asks to load unmodified is modified, in any policy and in any
loader that has the policy. -/
theorem loadUnmodified_gives_way (policy : Policy) {name : String}
    (hname : policy.loadUnmodified.Match name) :
    (∀ calls, let last := (Policy.run calls policy).2
      (last.decide name = .modify ↔ ¬ policy.builtin.Match name ∧ last.ignore.Match name ∧
        policy.prepare.Match name ∧ ¬ ∃ pattern ∈ policy.prepare, pattern.coversAll = true) ∧
      (¬ last.ignore.Match name → ∀ prepare, Policy.decide { last with prepare := prepare } name =
        if policy.builtin.Match name then .defer else .loadUnmodified) ∧
      (policy.decide name = .loadUnmodified → last.decide name = .modify → ∃ pattern,
        Policy.Call.addIgnore pattern ∈ calls ∧ (Pattern.ofString pattern).isMatch name = true)) ∧
    ∀ (s : Session) id loader ops, s.loader? id = some (.selective loader) →
      loader.policy = policy → ∃ visits, (run ops s).2.visits = s.visits ++ visits ∧
        ∀ visit ∈ visits, visit.context.loader = id → visit.context.className = name →
          ¬ policy.builtin.Match name ∧ policy.prepare.Match name ∧
          (¬ ∃ pattern ∈ policy.prepare, pattern.coversAll = true) ∧
          (policy.ignore.Match name ∨ ∃ patterns pattern,
            .change (.addIgnores id patterns) ∈ ops ∧ pattern ∈ patterns ∧
              (Pattern.ofString pattern).isMatch name = true) := by
  constructor
  · intro calls last
    have hextends : policy.Extends last := Policy.extends_run calls policy
    refine ⟨hextends.decide_eq_modify_iff hname,
      fun hignore prepare => hextends.decide_of_not_ignored hname hignore prepare,
      fun hfirst hmodify => ?_⟩
    obtain ⟨-, hignore, -⟩ := (hextends.decide_eq_modify_iff hname).mp hmodify
    rcases (Policy.match_ignore_run_iff calls policy name).mp hignore with hat | happended
    · exact absurd hat (Policy.not_ignored_of_decide hfirst)
    · exact happended
  · rintro s id loader ops here rfl
    obtain ⟨visits, hvisits, hobeyed⟩ := (hasPolicy_of_selective here).exists_visits_run ops
    refine ⟨visits, hvisits, fun visit hvisit hloader hclass => ?_⟩
    obtain ⟨before, hbefore, hmodify⟩ := hobeyed visit hvisit hloader
    -- the policy at the visit is what the operations up to there had made of it
    have hextends := Policy.extends_run (before.flatMap (·.policyCalls id)) loader.policy
    rw [hclass, hextends.decide_eq_modify_iff hname] at hmodify
    obtain ⟨hbuiltin, hignore, hprepare, hall⟩ := hmodify
    refine ⟨hbuiltin, hprepare, hall, ?_⟩
    refine ((match_ignore_run_policyCalls_iff _ id before name).mp hignore).imp_right ?_
    rintro ⟨patterns, pattern, hop, hmatch⟩
    exact ⟨patterns, pattern, hbefore.subset hop, hmatch⟩

/-- A loader that is to load a class unmodified, and to prepare it as well. -/
def supporter : SelectiveLoader where
  policy := ⟨[], [], Patterns.ofStrings ["A"], Patterns.ofStrings ["A"]⟩
  suppressStatic := []
  entries := [⟨0⟩]
  chain := [Unseal.transformer]
  deferred := ambient
  domain := {}

/-- The class is loaded unmodified until it is ignored, and modified from then on. -/
theorem modified_when_ignored_supporter :
    supporter.policy.loadUnmodified.Match "A" ∧ supporter.policy.decide "A" = .loadUnmodified ∧
      (supporter.policy.addIgnore "A").decide "A" = .modify := by
  decide +kernel

/-- It has the class on its class path. -/
def supported : Session :=
  { start .empty with
    holdings := [.single "A" (Stub.encode { name := "A" })]
    loaders := [.host { entries := [] }, .selective supporter] }

/-- The class is loaded, and looked for once more when it is ignored. -/
def ignoring : List Operation :=
  [.request (.load ⟨1⟩ "A"), .change (.addIgnores ⟨1⟩ ["A"]), .request (.find ⟨1⟩ "A")]

/-- The second time it passes through the chain, and the ignore that was appended is why. -/
theorem loadUnmodified_gives_way_supported :
    (Policy.run [.addIgnore "A"] supporter.policy).2.decide "A" = .modify ∧
      (run ignoring supported).2.visits.length = 1 ∧
      ∃ patterns pattern, .change (.addIgnores ⟨1⟩ patterns) ∈ ignoring ∧ pattern ∈ patterns ∧
        (Pattern.ofString pattern).isMatch "A" = true := by
  have hname : supporter.policy.loadUnmodified.Match "A" := by decide +kernel
  obtain ⟨hcalls, hruns⟩ := loadUnmodified_gives_way supporter.policy hname
  refine ⟨(hcalls [.addIgnore "A"]).1.mpr (by decide +kernel), by decide +kernel, ?_⟩
  obtain ⟨visits, hvisits, hwhy⟩ := hruns supported ⟨1⟩ supporter ignoring rfl rfl
  have hcontexts : visits.map (·.context) = [⟨"A", ⟨1⟩, false⟩] := by
    rw [show visits = (run ignoring supported).2.visits from hvisits.symm]
    decide +kernel
  obtain ⟨visit, rest, rfl, hcontext, -⟩ := List.map_eq_cons_iff.mp hcontexts
  obtain ⟨-, -, -, hbefore | happended⟩ :=
    hwhy visit List.mem_cons_self (by rw [hcontext]) (by rw [hcontext])
  · exact absurd hbefore (by decide +kernel)
  · exact happended

end Understudy.Session
