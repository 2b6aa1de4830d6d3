import ModuleRecovery.Attempt
import ModuleRecovery.CallGraph.Samples
import ModuleRecovery.Proofs.Components

/-!
Why no run can fail. The pair that a pass wants to merge are two different live clusters, so the
merge is never refused; and as it leaves one cluster less, only so many passes can follow. Main
statement: every run is over after one pass more than it makes merges, with the result that is
expected of it; so an analysis fails for its settings only, and then before it has told anything.
-/

namespace ModuleRecovery

namespace Rule

variable {rule : Rule} {g : CouplingGraph} {budget : Option Nat} {made : Nat} {c : Clusters}

theorem pass_of_stop {reason : StopReason} (h : rule.next g budget made c = .stop reason) :
    rule.pass g budget made c = .stopped reason := by
  simp [pass, h]

/-- The next merge is not refused, and what is recorded of it is what it comes to. -/
theorem pass_of_merge {pair : Candidate} {average : Option Binary64}
    (h : rule.next g budget made c = .merge pair average) :
    rule.pass g budget made c =
      .merged (rule.record g made c pair) (c.join pair.keep pair.absorb) := by
  obtain ⟨haccepts, haverage, -⟩ := accepts_of_next h
  have hp := haccepts.isClosest
  have hmerge := Clusters.merge_eq_ok hp.keep_mem hp.absorb_mem hp.keep_lt.ne
  simp [pass, h, hmerge, record, haverage]

/-- A run takes one pass for each of its merges and one to see that it is over. With these it
succeeds and has told of each event; with fewer it is not over yet. -/
theorem attempt_eq (rule : Rule) (g : CouplingGraph) (budget : Option Nat) (passes made : Nat)
    (c : Clusters) :
    rule.attempt g budget passes made c =
      let r := rule.runFrom g budget made c
      if r.merges.length < passes then some ⟨r.events, .ok r⟩ else none := by
  induction passes generalizing made c with
  | zero => rfl
  | succ passes ih =>
      cases hnext : rule.next g budget made c with
      | stop reason =>
          simp [attempt, pass_of_stop hnext, runFrom_of_stop hnext, Run.events]
      | merge pair average =>
          let after := c.join pair.keep pair.absorb
          let rest := rule.runFrom g budget (made + 1) after
          have hrest : rule.attempt g budget passes (made + 1) after =
              if rest.merges.length < passes then some ⟨rest.events, .ok rest⟩ else none :=
            ih (made + 1) after
          simp only [attempt, pass_of_merge hnext, runFrom_of_merge hnext, List.length_cons,
            Nat.add_lt_add_iff_right]
          by_cases hover : rest.merges.length < passes
          · rw [hrest, if_pos hover, if_pos hover]
            rfl
          · rw [hrest, if_neg hover, if_neg hover]
            rfl

theorem attempt_run (rule : Rule) (g : CouplingGraph) (budget : Option Nat) (passes : Nat)
    (c : Clusters) :
    rule.attempt g budget passes 0 c =
      let r := rule.run g budget c
      if r.outcome.mergeCount < passes then some ⟨r.events, .ok r⟩ else none := by
  have hcount := rule.mergeCount_run g budget c
  simp only [hcount]
  exact rule.attempt_eq g budget passes 0 c

/-- A run loses as many clusters as it makes merges. -/
theorem mergeCount_add_size (rule : Rule) (g : CouplingGraph) (budget : Option Nat)
    (c : Clusters) :
    (rule.run g budget c).outcome.mergeCount + (rule.run g budget c).final.size = c.size := by
  rw [mergeCount_run, Nat.add_comm]
  exact (rule.path_run g budget c).size_add_length

/-- Where there are classes, at least one cluster is left. -/
theorem Reaches.mergeCount_lt {steps : List MergeStep} (hclasses : g.classes ≠ [])
    (hreaches : rule.Reaches g (.singletons g) steps c) :
    (rule.run g budget c).outcome.mergeCount < g.classCount := by
  have hstart := hreaches.size_add_length
  have hrun := rule.mergeCount_add_size g budget c
  have hpart := ((rule.path_run g budget c).reaches hreaches).cohesive.1
  obtain ⟨x, hx⟩ := List.exists_mem_of_ne_nil _ hclasses
  obtain ⟨key, hkey⟩ := (hpart.mem_iff x).1 hx
  have hleft := Clusters.size_pos_of_mem_keys (Clusters.mem_keys_of_mem hkey)
  rw [Clusters.size_singletons] at hstart
  omega

end Rule

/-! ## The whole analysis -/

/-- The minimum is no finite number from zero on, or the budget allows no merge. -/
def Settings.IsInvalid (s : Settings) : Prop :=
  (s.minCouplingAverage = .nan ∨ (∃ negative, s.minCouplingAverage = .signed negative .infinity) ∨
    s.minCouplingAverage < .zero) ∨
  s.stepBudget = some 0

theorem Binary64.isFinite_eq_false_iff {x : Binary64} :
    x.isFinite = false ↔ x = .nan ∨ ∃ negative, x = .signed negative .infinity := by
  cases x with
  | nan => simp [isFinite]
  | signed negative magnitude =>
      have hfinite : magnitude.isFinite = false ↔ magnitude = .infinity := by
        rw [Magnitude.isFinite, decide_eq_false_iff_not, Nat.not_lt]
        constructor
        · intro h
          obtain ⟨rank, hrank⟩ := magnitude
          have heq : rank = Magnitude.infinityRank := Nat.le_antisymm hrank h
          subst heq
          rfl
        · rintro rfl
          exact Nat.le_refl _
      rw [isFinite, hfinite]
      simp

/-- Validation refuses the invalid settings and no others. -/
theorem Settings.validate_cases (s : Settings) :
    (s.IsInvalid ∧ ∃ fault, s.validate = .error fault) ∨ (¬s.IsInvalid ∧ s.validate = .ok ()) := by
  have hminimum : ¬s.minCouplingAverage.isFinite ∨ s.minCouplingAverage < .zero ↔
      s.minCouplingAverage = .nan ∨
        (∃ negative, s.minCouplingAverage = .signed negative .infinity) ∨
        s.minCouplingAverage < .zero := by
    rw [Bool.not_eq_true, Binary64.isFinite_eq_false_iff, or_assoc]
  unfold validate
  split
  · rename_i h
    exact Or.inl ⟨Or.inl (hminimum.1 h), _, rfl⟩
  · rename_i hvalid
    split
    · rename_i h
      exact Or.inl ⟨Or.inr h, _, rfl⟩
    · rename_i hbudget
      exact Or.inr ⟨not_or.2 ⟨mt hminimum.2 hvalid, hbudget⟩, rfl⟩

theorem Settings.validate_eq_ok_iff {s : Settings} : s.validate = .ok () ↔ ¬s.IsInvalid := by
  rcases s.validate_cases with ⟨hinvalid, fault, hfault⟩ | ⟨hvalid, hok⟩
  · simp [hinvalid, hfault]
  · simp [hvalid, hok]

namespace CallGraph

variable {g : CallGraph} {settings : Settings}

theorem attempt_of_error {fault : InvalidSetting} (h : settings.validate = .error fault)
    (passes : Nat) :
    g.attempt settings passes = some ⟨[], .error (.settings (.invalid fault.message))⟩ := by
  simp [attempt, h]

theorem analyze_of_ok (g : CallGraph) (h : settings.validate = .ok ()) :
    let graph := g.couplingGraph
    g.analyze settings =
      .ok ⟨g, settings, graph, graph.cluster settings, graph.identifyModules settings⟩ := by
  simp only [analyze, Settings.checked, h]
  rfl

/-- With valid settings an analysis succeeds, and all events of both runs have been told. -/
theorem attempt_of_ok (h : settings.validate = .ok ()) {passes : Nat}
    (hpasses : g.couplingGraph.classCount < passes) :
    ∃ analysis, g.analyze settings = .ok analysis ∧
      g.attempt settings passes = some ⟨analysis.events, .ok analysis⟩ := by
  let graph := g.couplingGraph
  have hover (rule : Rule) :
      (rule.run graph settings.stepBudget (.singletons graph)).outcome.mergeCount < passes := by
    have hsize := rule.mergeCount_add_size graph settings.stepBudget (.singletons graph)
    rw [Clusters.size_singletons] at hsize
    have hle := Nat.le.intro hsize
    exact hle.trans_lt hpasses
  refine ⟨_, g.analyze_of_ok h, ?_⟩
  simp only [attempt, h, Rule.attempt_run]
  rw [if_pos (hover .hierarchical)]
  dsimp only
  rw [if_pos (hover _)]
  rfl

end CallGraph

/-- No run can fail. Whatever the rule, the budget and the clusters it starts from, a run is over
after one pass more than it makes merges, and as many clusters are lost; over any series of runs on
a graph with classes it makes fewer merges than there are classes. So an analysis fails exactly
for invalid settings, and then nothing has been told. -/
theorem attempts_succeed :
    (∀ (rule : Rule) (g : CouplingGraph) (budget : Option Nat) (c : Clusters) (passes : Nat),
      let r := rule.run g budget c
      rule.attempt g budget passes 0 c =
          (if r.outcome.mergeCount < passes then some ⟨r.events, .ok r⟩ else none) ∧
        r.outcome.mergeCount + r.final.size = c.size) ∧
    (∀ (rule : Rule) (g : CouplingGraph) (budgets : List (Option Nat)), g.classes ≠ [] →
      ∀ r ∈ rule.runAll g budgets (.singletons g), r.outcome.mergeCount < g.classCount) ∧
    ∀ (g : CallGraph) (settings : Settings) (passes : Nat), g.couplingGraph.classCount < passes →
      ∃ attempt, g.attempt settings passes = some attempt ∧
        ((∃ error, attempt.result = .error error) ↔ settings.IsInvalid) ∧
        (∀ error, attempt.result = .error error →
          (∃ reason, error = .settings (.invalid reason)) ∧ attempt.told = []) ∧
        ∀ analysis, attempt.result = .ok analysis →
          g.analyze settings = .ok analysis ∧ attempt.told = analysis.events := by
  refine ⟨?_, ?_, ?_⟩
  · intro rule g budget c passes r
    exact ⟨rule.attempt_run g budget passes c, rule.mergeCount_add_size g budget c⟩
  · intro rule g budgets hclasses r hr
    obtain ⟨budget, earlier, before, hreaches, rfl⟩ := Rule.Reaches.start.exists_run hr
    exact hreaches.mergeCount_lt hclasses
  · intro g settings passes hpasses
    rcases settings.validate_cases with ⟨hinvalid, fault, hfault⟩ | ⟨hvalid, hok⟩
    · refine ⟨_, CallGraph.attempt_of_error hfault passes, ?_, ?_, ?_⟩
      · exact ⟨fun _ => hinvalid, fun _ => ⟨_, rfl⟩⟩
      · rintro error ⟨⟩
        exact ⟨⟨_, rfl⟩, rfl⟩
      · rintro analysis ⟨⟩
    · obtain ⟨analysis, hanalyze, hattempt⟩ := CallGraph.attempt_of_ok hok hpasses
      refine ⟨_, hattempt, ?_, ?_, ?_⟩
      · constructor
        · rintro ⟨_, ⟨⟩⟩
        · intro hinvalid
          exact absurd hinvalid hvalid
      · rintro error ⟨⟩
      · rintro _ ⟨⟩
        exact ⟨hanalyze, rfl⟩

theorem attempts_succeed_layeredShop :
    let shop := CallGraph.Samples.layeredShop
    let g := shop.couplingGraph
    (g.classes ≠ [] ∧ ∀ r ∈ (Rule.identification 7 (.ofNat 1)).runAll g [some 1, some 0, none]
      (.singletons g), r.outcome.mergeCount < g.classCount) ∧
    g.classCount < 8 ∧
    (∃ attempt analysis, shop.attempt .standard 8 = some attempt ∧ attempt.result = .ok analysis ∧
      attempt.told = analysis.events) ∧
    ∃ attempt error, shop.attempt { Settings.standard with stepBudget := some 0 } 8 = some attempt ∧
      attempt.result = .error error ∧ attempt.told = [] := by
  intro shop g
  have hclasses : g.classes ≠ [] := by decide +kernel
  have hpasses : g.classCount < 8 := by decide +kernel
  have hvalid : ¬Settings.standard.IsInvalid := by
    rintro ((h | ⟨negative, h⟩ | h) | h)
    · exact absurd h (by decide +kernel)
    · exact absurd (Binary64.isFinite_eq_false_iff.2 (Or.inr ⟨negative, h⟩)) (by decide +kernel)
    · exact absurd h (by decide +kernel)
    · exact absurd h (by decide)
  obtain ⟨-, hcount, hanalysis⟩ := attempts_succeed
  refine ⟨⟨hclasses, hcount _ g _ hclasses⟩, hpasses, ?_, ?_⟩
  · obtain ⟨attempt, hattempt, hfails, -, htold⟩ := hanalysis shop .standard 8 hpasses
    cases hresult : attempt.result with
    | error error => exact absurd (hfails.1 ⟨error, hresult⟩) hvalid
    | ok analysis => exact ⟨attempt, analysis, hattempt, hresult, (htold analysis hresult).2⟩
  · obtain ⟨attempt, hattempt, hfails, hsettings, -⟩ :=
      hanalysis shop { Settings.standard with stepBudget := some 0 } 8 hpasses
    obtain ⟨error, herror⟩ := hfails.2 (Or.inr rfl)
    exact ⟨attempt, error, hattempt, herror, (hsettings error herror).2⟩

end ModuleRecovery
