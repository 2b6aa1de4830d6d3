import ModuleRecovery.Run
import ModuleRecovery.Proofs.Linkage

/-!
What one move of a run can be, and what a whole run is made of. Main statements: a run follows a
path of accepted merges, one after the other, each leaving one cluster less; it never makes more
of them than its budget allows; and it ends in clusters at which its next move is to stop, for
the reason that it gives.
-/

namespace ModuleRecovery

namespace Rule

variable {rule : Rule} {g : CouplingGraph} {budget : Option Nat} {made : Nat} {c : Clusters}

/-- The number of clusters at which a rule stops every run. -/
def bound : Rule → Nat
  | hierarchical => 1
  | modules bound _ => bound

/-- The reason that a rule gives at its bound. -/
def boundReason : Rule → StopReason
  | hierarchical => .singleCluster
  | modules bound _ => .moduleLimit bound

/-- The average that a rule looks at before it merges a pair. -/
def average? (rule : Rule) (g : CouplingGraph) (c : Clusters) (pair : Candidate) :
    Option Binary64 :=
  match rule with
  | hierarchical => none
  | modules _ _ => some (c.mergedAverage g pair.keep pair.absorb)

/-- What is written down about the merge of a pair, the next one after `made` merges. -/
def record (rule : Rule) (g : CouplingGraph) (made : Nat) (c : Clusters) (pair : Candidate) :
    MergeStep where
  step := made + 1
  kept := pair.keep
  absorbed := pair.absorb
  coupling := pair.coupling
  mergedSize := (c.join pair.keep pair.absorb).sizeOf pair.keep
  average := rule.average? g c pair

/-! ## One move -/

/-- The rule merges this pair next, unless the budget is used up. -/
structure Accepts (rule : Rule) (g : CouplingGraph) (c : Clusters) (pair : Candidate) : Prop where
  bound_lt : rule.bound < c.size
  closest : c.closestPair g = some pair
  reaches_minimum : ∀ bound minimum, rule = .modules bound minimum →
    ¬c.mergedAverage g pair.keep pair.absorb < minimum

/-- What is known of a run that stops here for this reason. The bound is looked at before the
budget, the budget before the coupling and the coupling before the minimum. -/
def Stops (rule : Rule) (g : CouplingGraph) (budget : Option Nat) (made : Nat) (c : Clusters) :
    StopReason → Prop
  | .singleCluster => rule = .hierarchical ∧ c.size ≤ rule.bound
  | .moduleLimit bound => (∃ minimum, rule = .modules bound minimum) ∧ c.size ≤ rule.bound
  | .stepBudget b => rule.bound < c.size ∧ budget = some b ∧ b ≤ made
  | .noCoupling =>
      rule.bound < c.size ∧ (∀ b, budget = some b → made < b) ∧ c.closestPair g = none
  | .belowThreshold keep absorb average minimum =>
      (∃ bound, rule = .modules bound minimum) ∧ rule.bound < c.size ∧
        (∀ b, budget = some b → made < b) ∧
        (∃ coupling, c.closestPair g = some ⟨keep, absorb, coupling⟩) ∧
        average = c.mergedAverage g keep absorb ∧ average < minimum

theorem limit?_eq (rule : Rule) (clusters : Nat) :
    rule.limit? clusters = if clusters ≤ rule.bound then some rule.boundReason else none := by
  cases rule <;> rfl

private theorem filter_eq_none_iff :
    budget.filter (fun b => b ≤ made) = none ↔ ∀ b, budget = some b → made < b := by
  simp [Option.filter_eq_none_iff]

private theorem stops_boundReason (h : c.size ≤ rule.bound) :
    rule.Stops g budget made c rule.boundReason := by
  cases rule with
  | hierarchical => exact ⟨rfl, h⟩
  | modules bound minimum => exact ⟨⟨minimum, rfl⟩, h⟩

/-- A rule either stops a run or accepts the pair that is closest. -/
theorem next_cases (rule : Rule) (g : CouplingGraph) (budget : Option Nat) (made : Nat)
    (c : Clusters) :
    (∃ reason, rule.next g budget made c = .stop reason ∧ rule.Stops g budget made c reason) ∨
      ∃ pair, rule.next g budget made c = .merge pair (rule.average? g c pair) ∧
        rule.Accepts g c pair ∧ ∀ b, budget = some b → made < b := by
  simp only [next, limit?_eq]
  by_cases hsize : c.size ≤ rule.bound
  · exact Or.inl ⟨rule.boundReason, by simp [hsize], stops_boundReason hsize⟩
  · have hsize' : rule.bound < c.size := by omega
    simp only [hsize, if_false]
    cases hfilter : budget.filter fun b => b ≤ made with
    | some b =>
        obtain ⟨hbudget, hmade⟩ := Option.filter_eq_some_iff.1 hfilter
        exact Or.inl ⟨.stepBudget b, rfl, hsize', hbudget, by simpa using hmade⟩
    | none =>
        have hbudget := filter_eq_none_iff.1 hfilter
        cases hpair : c.closestPair g with
        | none => exact Or.inl ⟨.noCoupling, rfl, hsize', hbudget, hpair⟩
        | some pair =>
            cases rule with
            | hierarchical =>
                exact Or.inr ⟨pair, rfl, ⟨hsize', hpair, by simp⟩, hbudget⟩
            | modules bound minimum =>
                by_cases hlt : c.mergedAverage g pair.keep pair.absorb < minimum
                · refine Or.inl ⟨.belowThreshold pair.keep pair.absorb
                    (c.mergedAverage g pair.keep pair.absorb) minimum, by simp [judge, hlt], ?_⟩
                  exact ⟨⟨bound, rfl⟩, hsize', hbudget, ⟨pair.coupling, hpair⟩, rfl, hlt⟩
                · refine Or.inr ⟨pair, by simp [judge, hlt, average?], ⟨hsize', hpair, ?_⟩, hbudget⟩
                  rintro _ _ ⟨rfl, rfl⟩
                  exact hlt

theorem stops_of_next {reason : StopReason} (h : rule.next g budget made c = .stop reason) :
    rule.Stops g budget made c reason := by
  rcases rule.next_cases g budget made c with ⟨reason', hnext, hstops⟩ | ⟨pair, hnext, -⟩
  · rw [hnext] at h
    cases h
    exact hstops
  · rw [hnext] at h
    cases h

theorem next_of_stops {reason : StopReason} (h : rule.Stops g budget made c reason) :
    rule.next g budget made c = .stop reason := by
  have hlimit := rule.limit?_eq c.size
  cases reason with
  | singleCluster =>
      obtain ⟨rfl, hsize⟩ := h
      simp [next, hlimit, hsize, boundReason]
  | moduleLimit bound =>
      obtain ⟨⟨minimum, rfl⟩, hsize⟩ := h
      simp [next, hlimit, hsize, boundReason]
  | stepBudget b =>
      obtain ⟨hsize, hbudget, hmade⟩ := h
      have hfilter : budget.filter (fun b => b ≤ made) = some b := by
        simp [hbudget, hmade, Option.filter]
      simp [next, hlimit, hsize.not_ge, hfilter]
  | noCoupling =>
      obtain ⟨hsize, hbudget, hpair⟩ := h
      have hfilter := filter_eq_none_iff.2 hbudget
      simp [next, hlimit, hsize.not_ge, hfilter, hpair]
  | belowThreshold keep absorb average minimum =>
      obtain ⟨⟨bound, rfl⟩, hsize, hbudget, ⟨coupling, hpair⟩, rfl, hlt⟩ := h
      have hfilter := filter_eq_none_iff.2 hbudget
      simp [next, hlimit, hsize.not_ge, hfilter, hpair, judge, hlt]

/-- The ways to stop exclude each other. -/
theorem Stops.eq_iff {reason reason' : StopReason} (h : rule.Stops g budget made c reason) :
    reason = reason' ↔ rule.Stops g budget made c reason' := by
  constructor
  · intro heq
    exact heq ▸ h
  · intro h'
    cases (next_of_stops h).symm.trans (next_of_stops h')
    rfl

theorem accepts_of_next {pair : Candidate} {average : Option Binary64}
    (h : rule.next g budget made c = .merge pair average) :
    rule.Accepts g c pair ∧ average = rule.average? g c pair ∧
      ∀ b, budget = some b → made < b := by
  rcases rule.next_cases g budget made c with ⟨reason, hnext, -⟩ | ⟨pair', hnext, haccepts, hb⟩
  · rw [hnext] at h
    cases h
  · rw [hnext] at h
    cases h
    exact ⟨haccepts, rfl, hb⟩

/-- A rule that accepts a pair has no reason to stop, as long as the budget is not used up. -/
theorem Accepts.not_stops {pair : Candidate} (h : rule.Accepts g c pair)
    (hbudget : ∀ b, budget = some b → made < b) (reason : StopReason) :
    ¬rule.Stops g budget made c reason := by
  have hsize := h.bound_lt
  intro hstops
  cases reason with
  | singleCluster => exact absurd hstops.2 hsize.not_ge
  | moduleLimit bound => exact absurd hstops.2 hsize.not_ge
  | stepBudget b =>
      obtain ⟨-, hb, hmade⟩ := hstops
      exact absurd hmade (hbudget b hb).not_ge
  | noCoupling =>
      obtain ⟨-, -, hpair⟩ := hstops
      rw [h.closest] at hpair
      cases hpair
  | belowThreshold keep absorb average minimum =>
      obtain ⟨⟨bound, hrule⟩, -, -, ⟨coupling, hpair⟩, haverage, hlt⟩ := hstops
      rw [h.closest] at hpair
      cases hpair
      subst haverage
      exact h.reaches_minimum bound minimum hrule hlt

theorem next_of_accepts {pair : Candidate} (h : rule.Accepts g c pair)
    (hbudget : ∀ b, budget = some b → made < b) :
    rule.next g budget made c = .merge pair (rule.average? g c pair) := by
  rcases rule.next_cases g budget made c with ⟨reason, -, hstops⟩ | ⟨pair', hnext, haccepts, -⟩
  · exact absurd hstops (h.not_stops hbudget reason)
  · have hpair : some pair' = some pair := haccepts.closest.symm.trans h.closest
    cases hpair
    exact hnext

theorem Accepts.isClosest {pair : Candidate} (h : rule.Accepts g c pair) : c.IsClosest g pair :=
  Clusters.isClosest_of_closestPair h.closest

/-- An accepted merge leaves one cluster less. -/
theorem Accepts.size_join {pair : Candidate} (h : rule.Accepts g c pair) :
    (c.join pair.keep pair.absorb).size + 1 = c.size := by
  have hp := h.isClosest
  exact Clusters.size_join hp.keep_mem hp.absorb_mem hp.keep_lt.ne

/-! ## Whole runs -/

/-- The accepted merges that lead from some clusters to others, the first of them coming after
`made` merges, each with the clusters after it. -/
inductive Path (rule : Rule) (g : CouplingGraph) :
    Nat → Clusters → List (MergeStep × Clusters) → Clusters → Prop where
  | nil (made : Nat) (c : Clusters) : rule.Path g made c [] c
  | cons {made : Nat} {c final : Clusters} {pair : Candidate}
      {merges : List (MergeStep × Clusters)} (haccepts : rule.Accepts g c pair)
      (hrest : rule.Path g (made + 1) (c.join pair.keep pair.absorb) merges final) :
      rule.Path g made c ((rule.record g made c pair, c.join pair.keep pair.absorb) :: merges) final

theorem runFrom_of_stop {reason : StopReason} (h : rule.next g budget made c = .stop reason) :
    rule.runFrom g budget made c = ⟨[], reason, c⟩ := by
  rw [runFrom]
  split
  · rename_i reason' hnext
    cases h.symm.trans hnext
    rfl
  · rename_i hnext
    cases h.symm.trans hnext

theorem runFrom_of_merge {pair : Candidate} {average : Option Binary64}
    (h : rule.next g budget made c = .merge pair average) :
    rule.runFrom g budget made c =
      let after := c.join pair.keep pair.absorb
      let rest := rule.runFrom g budget (made + 1) after
      ⟨(rule.record g made c pair, after) :: rest.merges, rest.stop, rest.final⟩ := by
  rw [runFrom]
  split
  · rename_i hnext
    cases h.symm.trans hnext
  · rename_i pair' average' hnext
    cases h.symm.trans hnext
    obtain ⟨-, rfl, -⟩ := accepts_of_next h
    rfl

theorem path_runFrom (rule : Rule) (g : CouplingGraph) (budget : Option Nat) (made : Nat)
    (c : Clusters) :
    rule.Path g made c (rule.runFrom g budget made c).merges
      (rule.runFrom g budget made c).final := by
  induction made, c using Rule.runFrom.induct rule g budget with
  | case1 made c reason hnext =>
      rw [runFrom_of_stop hnext]
      exact .nil made c
  | case2 made c pair average hnext hlt after ih =>
      rw [runFrom_of_merge hnext]
      exact .cons (accepts_of_next hnext).1 ih

/-- A run ends where its next move is to stop, for the reason that it gives. -/
theorem stops_runFrom (rule : Rule) (g : CouplingGraph) (budget : Option Nat) (made : Nat)
    (c : Clusters) :
    rule.Stops g budget (made + (rule.runFrom g budget made c).merges.length)
      (rule.runFrom g budget made c).final (rule.runFrom g budget made c).stop := by
  induction made, c using Rule.runFrom.induct rule g budget with
  | case1 made c reason hnext =>
      rw [runFrom_of_stop hnext]
      exact stops_of_next hnext
  | case2 made c pair average hnext hlt after ih =>
      rw [runFrom_of_merge hnext]
      simpa only [List.length_cons, Nat.add_assoc, Nat.add_comm 1] using ih

theorem length_runFrom_le (rule : Rule) (g : CouplingGraph) (c : Clusters) {b : Nat}
    (hbudget : budget = some b) (hmade : made ≤ b) :
    made + (rule.runFrom g budget made c).merges.length ≤ b := by
  induction made, c using Rule.runFrom.induct rule g budget with
  | case1 made c reason hnext =>
      rw [runFrom_of_stop hnext]
      exact hmade
  | case2 made c pair average hnext hlt after ih =>
      have hrest : made + 1 + (rule.runFrom g budget (made + 1) after).merges.length ≤ b :=
        ih ((accepts_of_next hnext).2.2 b hbudget)
      rw [runFrom_of_merge hnext]
      change made + ((rule.runFrom g budget (made + 1) after).merges.length + 1) ≤ b
      omega

theorem path_run (rule : Rule) (g : CouplingGraph) (budget : Option Nat) (c : Clusters) :
    rule.Path g 0 c (rule.run g budget c).merges (rule.run g budget c).final :=
  rule.path_runFrom g budget 0 c

theorem stops_run (rule : Rule) (g : CouplingGraph) (budget : Option Nat) (c : Clusters) :
    rule.Stops g budget (rule.run g budget c).merges.length (rule.run g budget c).final
      (rule.run g budget c).stop := by
  simpa only [run, Nat.zero_add] using rule.stops_runFrom g budget 0 c

theorem mergeCount_run (rule : Rule) (g : CouplingGraph) (budget : Option Nat) (c : Clusters) :
    (rule.run g budget c).outcome.mergeCount = (rule.run g budget c).merges.length :=
  List.length_map _

theorem mergeCount_run_le (rule : Rule) (g : CouplingGraph) (c : Clusters) (b : Nat) :
    (rule.run g (some b) c).outcome.mergeCount ≤ b := by
  rw [mergeCount_run]
  simpa only [run, Nat.zero_add] using rule.length_runFrom_le g c rfl (Nat.zero_le b)

theorem length_runAll (rule : Rule) (g : CouplingGraph) (budgets : List (Option Nat))
    (c : Clusters) : (rule.runAll g budgets c).length = budgets.length := by
  induction budgets generalizing c with
  | nil => rfl
  | cons budget budgets ih => simp [runAll, ih]

namespace Path

variable {final : Clusters} {merges : List (MergeStep × Clusters)}

/-- A run makes the merges of every path that its budget leaves room for, and then goes on from
where the path leads to. -/
theorem runFrom_eq (path : rule.Path g made c merges final)
    (hbudget : ∀ b, budget = some b → made + merges.length ≤ b) :
    rule.runFrom g budget made c =
      let rest := rule.runFrom g budget (made + merges.length) final
      ⟨merges ++ rest.merges, rest.stop, rest.final⟩ := by
  induction path with
  | nil => rfl
  | @cons made c final pair merges haccepts _ ih =>
      simp only [List.length_cons] at hbudget
      have hroom : ∀ b, budget = some b → made < b := by
        intro b hb
        have := hbudget b hb
        omega
      have hlength : made + 1 + merges.length = made + (merges.length + 1) := by omega
      rw [hlength] at ih
      rw [runFrom_of_merge (next_of_accepts haccepts hroom)]
      simp only [ih hbudget, List.length_cons, List.cons_append]

/-- Every merge of a path leaves one cluster less. -/
theorem size_add_length (path : rule.Path g made c merges final) :
    final.size + merges.length = c.size := by
  induction path with
  | nil => rfl
  | cons haccepts _ ih =>
      have hsize := haccepts.size_join
      simp only [List.length_cons]
      omega

/-- A path never goes below the bound of its rule. -/
theorem bound_le_size (path : rule.Path g made c merges final) (h : rule.bound ≤ c.size) :
    rule.bound ≤ final.size := by
  induction path with
  | nil => exact h
  | cons haccepts _ ih =>
      have hsize := haccepts.size_join
      have hbound := haccepts.bound_lt
      exact ih (by omega)

/-- At the bound of its rule a path does not move. -/
theorem eq_of_size_le (path : rule.Path g made c merges final) (h : c.size ≤ rule.bound) :
    merges = [] ∧ final = c := by
  cases path with
  | nil => exact ⟨rfl, rfl⟩
  | cons haccepts _ => exact absurd haccepts.bound_lt (Nat.not_lt.2 h)

/-- A path can be cut in two anywhere. -/
theorem split {first second : List (MergeStep × Clusters)}
    (path : rule.Path g made c (first ++ second) final) :
    ∃ middle, rule.Path g made c first middle ∧
      rule.Path g (made + first.length) middle second final := by
  induction first generalizing made c with
  | nil => exact ⟨c, .nil made c, path⟩
  | cons m rest ih =>
      cases path with
      | cons haccepts hrest =>
          obtain ⟨middle, hfirst, hsecond⟩ := ih hrest
          refine ⟨middle, .cons haccepts hfirst, ?_⟩
          simpa only [List.length_cons, Nat.add_assoc, Nat.add_comm 1] using hsecond

end Path

/-! ## All merges so far -/

/-- The clusters that accepted merges lead to, with all steps recorded on the way. The steps need
not be numbered through, as each run starts to count anew. -/
inductive Reaches (rule : Rule) (g : CouplingGraph) (start : Clusters) :
    List MergeStep → Clusters → Prop where
  | start : rule.Reaches g start [] start
  | merge {steps : List MergeStep} {c : Clusters} {pair : Candidate} (made : Nat)
      (hreaches : rule.Reaches g start steps c) (haccepts : rule.Accepts g c pair) :
      rule.Reaches g start (steps ++ [rule.record g made c pair]) (c.join pair.keep pair.absorb)

theorem Path.reaches {start final : Clusters} {steps : List MergeStep}
    {merges : List (MergeStep × Clusters)} (path : rule.Path g made c merges final)
    (hreaches : rule.Reaches g start steps c) :
    rule.Reaches g start (steps ++ merges.map Prod.fst) final := by
  induction path generalizing steps with
  | nil => simpa using hreaches
  | cons haccepts _ ih => simpa using ih (.merge _ hreaches haccepts)

/-- Each of a series of runs ends in what all merges up to then lead to. -/
theorem Reaches.runAll_final {start : Clusters} {steps : List MergeStep}
    {budgets : List (Option Nat)} (hreaches : rule.Reaches g start steps c) (i : Nat)
    (hi : i < (rule.runAll g budgets c).length) :
    rule.Reaches g start
      (steps ++ ((rule.runAll g budgets c).take (i + 1)).flatMap (·.outcome.steps))
      (rule.runAll g budgets c)[i].final := by
  induction budgets generalizing c steps i with
  | nil => simp [runAll] at hi
  | cons budget budgets ih =>
      have hfirst := (rule.path_run g budget c).reaches hreaches
      cases i with
      | zero => simpa [runAll, Run.outcome] using hfirst
      | succ i =>
          simp only [runAll, List.length_cons, Nat.add_lt_add_iff_right] at hi
          have hrest := ih hfirst i hi
          simpa [runAll, Run.outcome] using hrest

/-- Each of a series of runs starts from what the merges of the runs before it lead to. -/
theorem Reaches.exists_run {start : Clusters} {steps : List MergeStep}
    {budgets : List (Option Nat)} {r : Run} (hreaches : rule.Reaches g start steps c)
    (hr : r ∈ rule.runAll g budgets c) :
    ∃ budget earlier before, rule.Reaches g start earlier before ∧
      r = rule.run g budget before := by
  induction budgets generalizing c steps with
  | nil => cases hr
  | cons budget budgets ih =>
      rcases List.mem_cons.1 hr with rfl | hlater
      · exact ⟨budget, steps, c, hreaches, rfl⟩
      · exact ih ((rule.path_run g budget c).reaches hreaches) hlater

theorem Reaches.size_add_length {start : Clusters} {steps : List MergeStep}
    (hreaches : rule.Reaches g start steps c) : c.size + steps.length = start.size := by
  induction hreaches with
  | start => rfl
  | merge made _ haccepts ih =>
      have hsize := haccepts.size_join
      rw [List.length_append, List.length_singleton]
      omega

end Rule

end ModuleRecovery
