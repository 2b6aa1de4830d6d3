import ModuleRecovery.Proofs.Run

/-!
Why runs stop. The bound of the rule is looked at before the budget, the budget before the
coupling and the coupling before the minimum, so the reasons exclude each other and each can be
told from where the run has ended. Main statement: exactly when each reason to stop is given, for
every run from any clusters.
-/

namespace ModuleRecovery

namespace Rule

variable {rule : Rule} {g : CouplingGraph} {budget : Option Nat} {c : Clusters}

/-- At the bound of its rule a run does nothing. -/
theorem run_of_size_le (rule : Rule) (g : CouplingGraph) (budget : Option Nat) (c : Clusters)
    (h : c.size ≤ rule.bound) :
    (rule.run g budget c).outcome.mergeCount = 0 ∧ (rule.run g budget c).final = c := by
  obtain ⟨hmerges, hfinal⟩ := (rule.path_run g budget c).eq_of_size_le h
  rw [mergeCount_run, hmerges]
  exact ⟨rfl, hfinal⟩

/-- A run that reaches the bound of its rule from above stops right on it. -/
theorem size_run_eq_bound (rule : Rule) (g : CouplingGraph) (budget : Option Nat)
    (c : Clusters) (h : rule.bound < c.size)
    (hend : (rule.run g budget c).final.size ≤ rule.bound) :
    (rule.run g budget c).final.size = rule.bound :=
  le_antisymm hend ((rule.path_run g budget c).bound_le_size h.le)

theorem run_stop_eq_iff {reason : StopReason} :
    (rule.run g budget c).stop = reason ↔
      rule.Stops g budget (rule.run g budget c).outcome.mergeCount (rule.run g budget c).final
        reason := by
  rw [mergeCount_run]
  exact (rule.stops_run g budget c).eq_iff

theorem run_stop_eq_stepBudget_iff {b : Nat} :
    (rule.run g budget c).stop = .stepBudget b ↔
      budget = some b ∧ (rule.run g budget c).outcome.mergeCount = b ∧
        rule.bound < (rule.run g budget c).final.size := by
  rw [run_stop_eq_iff]
  constructor
  · intro ⟨hsize, hbudget, hmade⟩
    subst hbudget
    exact ⟨rfl, le_antisymm (rule.mergeCount_run_le g c b) hmade, hsize⟩
  · intro ⟨hbudget, hmade, hsize⟩
    exact ⟨hsize, hbudget, hmade.ge⟩

theorem run_stop_eq_noCoupling_iff :
    (rule.run g budget c).stop = .noCoupling ↔
      rule.bound < (rule.run g budget c).final.size ∧
        (∀ b, budget = some b → (rule.run g budget c).outcome.mergeCount < b) ∧
        (rule.run g budget c).final.Uncoupled g := by
  rw [run_stop_eq_iff, ← Clusters.closestPair_eq_none_iff]
  rfl

/-- The pair of a rejected merge are still two clusters. -/
theorem run_stop_eq_belowThreshold_iff {keep absorb : ClassName} {average minimum : Binary64} :
    (rule.run g budget c).stop = .belowThreshold keep absorb average minimum ↔
      (∃ bound, rule = .modules bound minimum) ∧
        rule.bound < (rule.run g budget c).final.size ∧
        (∀ b, budget = some b → (rule.run g budget c).outcome.mergeCount < b) ∧
        (∃ coupling, (rule.run g budget c).final.closestPair g = some ⟨keep, absorb, coupling⟩) ∧
        (keep ∈ (rule.run g budget c).final.keys ∧ absorb ∈ (rule.run g budget c).final.keys ∧
          keep ≠ absorb) ∧
        average = (rule.run g budget c).final.mergedAverage g keep absorb ∧
        average < minimum := by
  rw [run_stop_eq_iff]
  constructor
  · intro ⟨hrule, hsize, hbudget, ⟨coupling, hpair⟩, haverage, hlt⟩
    have hp := Clusters.isClosest_of_closestPair hpair
    exact ⟨hrule, hsize, hbudget, ⟨coupling, hpair⟩,
      ⟨hp.keep_mem, hp.absorb_mem, hp.keep_lt.ne⟩, haverage, hlt⟩
  · intro ⟨hrule, hsize, hbudget, hpair, _, haverage, hlt⟩
    exact ⟨hrule, hsize, hbudget, hpair, haverage, hlt⟩

/-- Exactly when each reason to stop is given. Module identification stops at its bound, out of
budget, without coupling left or below its minimum; hierarchical clustering stops at one cluster,
out of budget or without coupling left. The clusters at the start are any, so they may be those
that earlier runs have left. -/
theorem run_stop_exact (g : CouplingGraph) (budget : Option Nat) (c : Clusters) :
    (∀ (totalClasses : Nat) (minimum : Binary64),
      let m := totalClasses / 2
      let r := (Rule.identification totalClasses minimum).run g budget c
      (∀ bound, r.stop = .moduleLimit bound ↔ bound = m ∧ r.final.size ≤ m) ∧
      (m < c.size → r.final.size ≤ m → r.final.size = m) ∧
      (c.size ≤ m → r.outcome.mergeCount = 0 ∧ r.final = c) ∧
      (∀ b, r.stop = .stepBudget b ↔
        budget = some b ∧ r.outcome.mergeCount = b ∧ m < r.final.size) ∧
      (r.stop = .noCoupling ↔ m < r.final.size ∧
        (∀ b, budget = some b → r.outcome.mergeCount < b) ∧
        ∀ x ∈ r.final.keys, ∀ y ∈ r.final.keys, x ≠ y → r.final.interCoupling g x y = 0) ∧
      (∀ keep absorb average least, r.stop = .belowThreshold keep absorb average least ↔
        m < r.final.size ∧ (∀ b, budget = some b → r.outcome.mergeCount < b) ∧
        (∃ coupling, r.final.closestPair g = some ⟨keep, absorb, coupling⟩) ∧
        (keep ∈ r.final.keys ∧ absorb ∈ r.final.keys ∧ keep ≠ absorb) ∧
        average = r.final.mergedAverage g keep absorb ∧ least = minimum ∧ average < minimum) ∧
      r.stop ≠ .singleCluster) ∧
    (let r := Rule.hierarchical.run g budget c
     (r.stop = .singleCluster ↔ r.final.size ≤ 1) ∧
      (1 < c.size → r.final.size ≤ 1 → r.final.size = 1) ∧
      (c.size ≤ 1 → r.outcome.mergeCount = 0 ∧ r.final = c) ∧
      (∀ b, r.stop = .stepBudget b ↔
        budget = some b ∧ r.outcome.mergeCount = b ∧ 1 < r.final.size) ∧
      (r.stop = .noCoupling ↔ 1 < r.final.size ∧
        (∀ b, budget = some b → r.outcome.mergeCount < b) ∧
        ∀ x ∈ r.final.keys, ∀ y ∈ r.final.keys, x ≠ y → r.final.interCoupling g x y = 0) ∧
      (∀ bound, r.stop ≠ .moduleLimit bound) ∧
      ∀ keep absorb average least, r.stop ≠ .belowThreshold keep absorb average least) := by
  constructor
  · intro totalClasses minimum m r
    let rule := Rule.identification totalClasses minimum
    refine ⟨fun bound => ?_, rule.size_run_eq_bound g budget c, rule.run_of_size_le g budget c,
      fun b => run_stop_eq_stepBudget_iff, run_stop_eq_noCoupling_iff,
      fun keep absorb average least => ?_, ?_⟩
    · rw [run_stop_eq_iff]
      constructor
      · rintro ⟨⟨_, ⟨⟩⟩, hsize⟩
        exact ⟨rfl, hsize⟩
      · rintro ⟨rfl, hsize⟩
        exact ⟨⟨minimum, rfl⟩, hsize⟩
    · rw [run_stop_eq_belowThreshold_iff]
      constructor
      · rintro ⟨⟨_, ⟨⟩⟩, hsize, hbudget, hpair, hkeys, haverage, hlt⟩
        exact ⟨hsize, hbudget, hpair, hkeys, haverage, rfl, hlt⟩
      · rintro ⟨hsize, hbudget, hpair, hkeys, haverage, rfl, hlt⟩
        exact ⟨⟨m, rfl⟩, hsize, hbudget, hpair, hkeys, haverage, hlt⟩
    · intro hstop
      obtain ⟨⟨⟩, _⟩ := run_stop_eq_iff.1 hstop
  · intro r
    refine ⟨?_, Rule.hierarchical.size_run_eq_bound g budget c,
      Rule.hierarchical.run_of_size_le g budget c, fun b => run_stop_eq_stepBudget_iff,
      run_stop_eq_noCoupling_iff, fun bound hstop => ?_,
      fun keep absorb average least hstop => ?_⟩
    · rw [run_stop_eq_iff]
      exact and_iff_right rfl
    · obtain ⟨⟨_, ⟨⟩⟩, _⟩ := run_stop_eq_iff.1 hstop
    · obtain ⟨⟨_, ⟨⟩⟩, _⟩ := run_stop_eq_belowThreshold_iff.1 hstop

end Rule

end ModuleRecovery
