import Mathlib.Algebra.BigOperators.Group.List.Basic
import Mathlib.Algebra.GroupWithZero.Nat
import Mathlib.Data.ENat.Lattice
import ModuleRecovery.CallGraph.Samples
import ModuleRecovery.Coupling
import ModuleRecovery.Proofs.Stopping

/-!
Runs that are cut by a budget and taken up again. What a run without a budget would do next
depends on the clusters alone, so the merges that a budget cuts off are just the merges of the
next run, numbered anew. Main statement: runs under any budgets, one after the other, make the
first merges of one run without a budget, as many as the budgets allow together, and each of
them stops for the reason of that run unless its own budget ends it earlier.
-/

namespace ModuleRecovery

/-- The steps numbered one after the other, the first of them coming after `made` others. -/
def renumber (made : Nat) (steps : List MergeStep) : List MergeStep :=
  steps.mapIdx fun i step => { step with step := made + i + 1 }

theorem renumber_cons (made : Nat) (step : MergeStep) (steps : List MergeStep) :
    renumber made (step :: steps) =
      { step with step := made + 1 } :: renumber (made + 1) steps := by
  simp [renumber, List.mapIdx_cons, Nat.add_assoc, Nat.add_comm 1]

theorem renumber_append (made : Nat) (first second : List MergeStep) :
    renumber made (first ++ second) =
      renumber made first ++ renumber (made + first.length) second := by
  simp [renumber, List.mapIdx_append, Nat.add_assoc, Nat.add_comm, Nat.add_left_comm]

theorem renumber_renumber (made other : Nat) (steps : List MergeStep) :
    renumber made (renumber other steps) = renumber made steps := by
  simp [renumber, Function.comp_def]

theorem length_renumber (made : Nat) (steps : List MergeStep) :
    (renumber made steps).length = steps.length := by
  simp [renumber]

theorem renumber_take (made n : Nat) (steps : List MergeStep) :
    renumber made (steps.take n) = (renumber made steps).take n := by
  induction steps generalizing made n with
  | nil => simp [renumber]
  | cons step rest ih =>
      cases n with
      | zero => rfl
      | succ n => simp only [List.take_succ_cons, renumber_cons, ih]

/-- How many merges a budget allows; without a budget there is no bound. -/
def allowance : Option Nat → ℕ∞
  | none => ⊤
  | some b => b

/-- The reason that a run gives which could make `left` more merges and would then stop for
`reason`. The number of clusters is looked at before the budget, and all else after it. -/
def StopReason.within (reason : StopReason) (left : Nat) : Option Nat → StopReason
  | none => reason
  | some b =>
      if left < b then reason
      else if b < left then .stepBudget b
      else
        match reason with
        | .singleCluster | .moduleLimit _ => reason
        | _ => .stepBudget b

namespace Rule

variable {rule : Rule} {g : CouplingGraph} {budget : Option Nat} {made : Nat} {c final : Clusters}

/-! ## Taking up a run -/

theorem Path.renumber_steps {merges : List (MergeStep × Clusters)}
    (path : rule.Path g made c merges final) :
    renumber made (merges.map Prod.fst) = merges.map Prod.fst := by
  induction path with
  | nil => rfl
  | cons _ _ ih =>
      rw [List.map_cons, renumber_cons, ih]
      rfl

/-- The same merges can be made after any number of others. -/
theorem Path.exists_renumbered {merges : List (MergeStep × Clusters)}
    (path : rule.Path g made c merges final) (other : Nat) :
    ∃ merges', rule.Path g other c merges' final ∧
      merges'.map Prod.fst = renumber other (merges.map Prod.fst) := by
  induction path generalizing other with
  | nil made c => exact ⟨[], .nil other c, rfl⟩
  | cons haccepts _ ih =>
      obtain ⟨merges', path', hsteps⟩ := ih (other + 1)
      refine ⟨_, .cons haccepts path', ?_⟩
      rw [List.map_cons, List.map_cons, renumber_cons, hsteps]
      rfl

/-- A reason other than the budget is there without a budget, too. -/
theorem Stops.without_budget {reason : StopReason} (h : rule.Stops g budget made c reason)
    (hreason : ∀ b, reason ≠ .stepBudget b) (other : Nat) :
    rule.Stops g none other c reason := by
  cases reason with
  | singleCluster => exact h
  | moduleLimit bound => exact h
  | stepBudget b => exact absurd rfl (hreason b)
  | noCoupling => exact ⟨h.1, by simp, h.2.2⟩
  | belowThreshold keep absorb average minimum => exact ⟨h.1, h.2.1, by simp, h.2.2.2⟩

theorem Stops.ne_stepBudget {reason : StopReason} (h : rule.Stops g none made c reason) (b : Nat) :
    reason ≠ .stepBudget b := by
  rintro rfl
  obtain ⟨-, hbudget, -⟩ := h
  cases hbudget

theorem outcome_runFrom_none (rule : Rule) (g : CouplingGraph) (made : Nat) (c : Clusters) :
    (rule.runFrom g none made c).outcome =
      ⟨renumber made (rule.run g none c).outcome.steps, (rule.run g none c).stop⟩ := by
  obtain ⟨merges, path, hsteps⟩ := (rule.path_run g none c).exists_renumbered made
  have hstops := rule.stops_run g none c
  have hend := next_of_stops
    (hstops.without_budget (fun b => hstops.ne_stepBudget b) (made + merges.length))
  rw [path.runFrom_eq (by simp), runFrom_of_stop hend]
  simp [Run.outcome, hsteps]

/-- What a run without a budget does after some merges, a run from the clusters there does. -/
theorem Path.outcome_run_none {merges : List (MergeStep × Clusters)}
    (path : rule.Path g 0 c merges final) :
    (rule.run g none c).outcome =
      ⟨merges.map Prod.fst ++ renumber merges.length (rule.run g none final).outcome.steps,
        (rule.run g none final).stop⟩ := by
  have hwhole : rule.runFrom g none 0 c = _ := path.runFrom_eq (by simp)
  have hrest := rule.outcome_runFrom_none g merges.length final
  simp only [Run.outcome, Outcome.mk.injEq] at hrest
  rw [run, hwhole]
  simp [Run.outcome, hrest]

theorem outcome_run_none (rule : Rule) (g : CouplingGraph) (budget : Option Nat) (c : Clusters) :
    let cut := rule.run g budget c
    let rest := rule.run g none cut.final
    (rule.run g none c).outcome =
      ⟨cut.outcome.steps ++ renumber cut.outcome.mergeCount rest.outcome.steps, rest.stop⟩ := by
  intro cut rest
  have hwhole := (rule.path_run g budget c).outcome_run_none
  rw [← mergeCount_run] at hwhole
  exact hwhole

theorem mergeCount_run_none (rule : Rule) (g : CouplingGraph) (budget : Option Nat)
    (c : Clusters) :
    (rule.run g none c).outcome.mergeCount = (rule.run g budget c).outcome.mergeCount +
      (rule.run g none (rule.run g budget c).final).outcome.mergeCount := by
  rw [rule.outcome_run_none g budget c]
  simp [Outcome.mergeCount, length_renumber]

theorem stop_run_none (rule : Rule) (g : CouplingGraph) (budget : Option Nat) (c : Clusters) :
    (rule.run g none (rule.run g budget c).final).stop = (rule.run g none c).stop := by
  have hwhole := rule.outcome_run_none g budget c
  exact (congrArg Outcome.stop hwhole).symm

/-- After a reason other than the budget there is nothing left to do. -/
theorem run_none_of_stop {reason : StopReason} (h : (rule.run g budget c).stop = reason)
    (hreason : ∀ b, reason ≠ .stepBudget b) :
    rule.run g none (rule.run g budget c).final = ⟨[], reason, (rule.run g budget c).final⟩ := by
  have hstops := rule.stops_run g budget c
  rw [h] at hstops
  exact runFrom_of_stop (next_of_stops (hstops.without_budget hreason 0))

/-! ## One run -/

/-- What stops a run without a budget stops it as well just within a budget, unless the budget
is looked at first. -/
theorem Stops.within {b : Nat} {reason : StopReason} (h : rule.Stops g none made c reason)
    (hmade : made ≤ b) : rule.Stops g (some b) made c (reason.within made (some b)) := by
  rcases hmade.lt_or_eq with hlt | rfl
  · have hroom : ∀ b', some b = some b' → made < b' := by
      rintro b' ⟨⟩
      exact hlt
    simp only [StopReason.within, if_pos hlt]
    cases reason with
    | singleCluster => exact h
    | moduleLimit bound => exact h
    | stepBudget b' => exact absurd rfl (h.ne_stepBudget b')
    | noCoupling => exact ⟨h.1, hroom, h.2.2⟩
    | belowThreshold keep absorb average minimum => exact ⟨h.1, h.2.1, hroom, h.2.2.2⟩
  · simp only [StopReason.within, lt_irrefl, if_false]
    cases reason with
    | singleCluster => exact h
    | moduleLimit bound => exact h
    | stepBudget b' => exact absurd rfl (h.ne_stepBudget b')
    | noCoupling => exact ⟨h.1, rfl, le_rfl⟩
    | belowThreshold keep absorb average minimum => exact ⟨h.2.1, rfl, le_rfl⟩

theorem final_run_of_mergeCount_eq_zero (h : (rule.run g budget c).outcome.mergeCount = 0) :
    (rule.run g budget c).final = c := by
  have path := rule.path_run g budget c
  rw [mergeCount_run, List.length_eq_zero_iff] at h
  rw [h] at path
  generalize (rule.run g budget c).final = final at path
  cases path
  rfl

/-- Where a budget ends a run, and for which reason. -/
theorem run_within (rule : Rule) (g : CouplingGraph) (c : Clusters) (b : Nat) :
    (rule.run g (some b) c).outcome.mergeCount = min (rule.run g none c).outcome.mergeCount b ∧
      (rule.run g (some b) c).stop =
        (rule.run g none c).stop.within (rule.run g none c).outcome.mergeCount (some b) := by
  have hle := rule.mergeCount_run_le g c b
  have htotal := rule.mergeCount_run_none g (some b) c
  have hstop := rule.stop_run_none g (some b) c
  rcases Nat.eq_zero_or_pos
    (rule.run g none (rule.run g (some b) c).final).outcome.mergeCount with hnone | hmore
  · have hcount : (rule.run g (some b) c).outcome.mergeCount =
        (rule.run g none c).outcome.mergeCount := by omega
    have hstops := rule.stops_run g none (rule.run g (some b) c).final
    rw [final_run_of_mergeCount_eq_zero hnone, hstop] at hstops
    refine ⟨by omega, run_stop_eq_iff.2 ?_⟩
    rw [hcount]
    exact (hstops.without_budget (fun b => hstops.ne_stepBudget b) _).within (by omega)
  · -- Only the budget can have left something to do.
    have hcut : (rule.run g (some b) c).stop = .stepBudget b := by
      by_contra hne
      have hreason : ∀ b', (rule.run g (some b) c).stop ≠ .stepBudget b' := by
        intro b' hb'
        obtain ⟨⟨⟩, -, -⟩ := run_stop_eq_stepBudget_iff.1 hb'
        exact hne hb'
      rw [run_none_of_stop rfl hreason] at hmore
      exact lt_irrefl 0 hmore
    obtain ⟨-, hcount, -⟩ := run_stop_eq_stepBudget_iff.1 hcut
    have hlt : b < (rule.run g none c).outcome.mergeCount := by omega
    refine ⟨by omega, ?_⟩
    simp only [hcut, StopReason.within, hlt.not_gt, hlt, if_true, if_false]

/-! ## Series of runs -/

theorem mem_runAll {budgets : List (Option Nat)} {r : Run} (h : r ∈ rule.runAll g budgets c) :
    ∃ budget start, r = rule.run g budget start := by
  induction budgets generalizing c with
  | nil => cases h
  | cons budget budgets ih =>
      rcases List.mem_cons.1 h with rfl | hrest
      · exact ⟨budget, c, rfl⟩
      · exact ih hrest

theorem mergeCount_run_eq (rule : Rule) (g : CouplingGraph) (budget : Option Nat) (c : Clusters) :
    ((rule.run g budget c).outcome.mergeCount : ℕ∞) =
      min ((rule.run g none c).outcome.mergeCount : ℕ∞) (allowance budget) := by
  cases budget with
  | none => simp [allowance]
  | some b =>
      rw [(rule.run_within g c b).1]
      exact Nat.mono_cast.map_min

/-- The merges within a budget and the merges within the budgets after it add up. -/
private theorem toNat_min_add {left made : Nat} {budget later : ℕ∞}
    (hmade : (made : ℕ∞) = min (left : ℕ∞) budget) :
    (min (left : ℕ∞) (budget + later)).toNat =
      made + (min ((left - made : Nat) : ℕ∞) later).toNat := by
  have hmin (m n : Nat) : min (m : ℕ∞) (n : ℕ∞) = (min m n : Nat) := Nat.mono_cast.map_min.symm
  cases budget with
  | top =>
      have hall : made = left := by simpa using hmade
      simp [hall]
  | coe b =>
      rw [hmin, Nat.cast_inj] at hmade
      cases later with
      | top =>
          simp only [add_top, min_top_right, ENat.toNat_natCast]
          omega
      | coe n =>
          rw [← Nat.cast_add, hmin, hmin, ENat.toNat_natCast, ENat.toNat_natCast]
          omega

theorem steps_runAll (rule : Rule) (g : CouplingGraph) (budgets : List (Option Nat))
    (c : Clusters) :
    renumber 0 ((rule.runAll g budgets c).flatMap (·.outcome.steps)) =
      (rule.run g none c).outcome.steps.take
        (min ((rule.run g none c).outcome.mergeCount : ℕ∞) (budgets.map allowance).sum).toNat := by
  induction budgets generalizing c with
  | nil => simp [runAll, renumber]
  | cons budget budgets ih =>
      let first := rule.run g budget c
      let rest := rule.run g none first.final
      let later := (rule.runAll g budgets first.final).flatMap (·.outcome.steps)
      let n := (min (rest.outcome.mergeCount : ℕ∞) (budgets.map allowance).sum).toNat
      have hrest : renumber 0 later = rest.outcome.steps.take n := ih first.final
      have htotal : (rule.run g none c).outcome.mergeCount =
          first.outcome.mergeCount + rest.outcome.mergeCount := rule.mergeCount_run_none g budget c
      have hnumbered : renumber 0 first.outcome.steps = first.outcome.steps :=
        (rule.path_run g budget c).renumber_steps
      have hlater : renumber first.outcome.mergeCount later =
          (renumber first.outcome.mergeCount rest.outcome.steps).take n := by
        rw [← renumber_take, ← hrest, renumber_renumber]
      have hcount : (min ((rule.run g none c).outcome.mergeCount : ℕ∞)
          ((budget :: budgets).map allowance).sum).toNat = first.outcome.mergeCount + n := by
        rw [List.map_cons, List.sum_cons, toNat_min_add (rule.mergeCount_run_eq g budget c),
          htotal, Nat.add_sub_cancel_left]
      calc
        renumber 0 (first.outcome.steps ++ later) =
            first.outcome.steps ++ renumber first.outcome.mergeCount later := by
              rw [renumber_append, hnumbered, Nat.zero_add]
              rfl
        _ = first.outcome.steps ++
              (renumber first.outcome.mergeCount rest.outcome.steps).take n := by rw [hlater]
        _ = (rule.run g none c).outcome.steps.take (first.outcome.mergeCount + n) := by
              rw [rule.outcome_run_none g budget c]
              exact (List.take_length_add_append n).symm
        _ = _ := by rw [hcount]

/-- Each run of a series stops as its own budget and the merges that are still left tell. -/
theorem stop_runAll (rule : Rule) (g : CouplingGraph) (budgets : List (Option Nat)) (c : Clusters)
    {i : Nat} {r : Run} {budget : Option Nat} (hrun : (rule.runAll g budgets c)[i]? = some r)
    (hbudget : budgets[i]? = some budget) :
    ∃ left,
      (((rule.runAll g budgets c).take i).map (·.outcome.mergeCount)).sum + left =
        (rule.run g none c).outcome.mergeCount ∧
      r.stop = (rule.run g none c).stop.within left budget := by
  induction budgets generalizing c i with
  | nil => cases hbudget
  | cons first budgets ih =>
      cases i with
      | zero =>
          cases hrun
          cases hbudget
          refine ⟨_, Nat.zero_add _, ?_⟩
          cases budget with
          | none => rfl
          | some b => exact (rule.run_within g c b).2
      | succ i =>
          obtain ⟨left, hleft, hstop⟩ := ih (rule.run g first c).final hrun hbudget
          have htotal := rule.mergeCount_run_none g first c
          rw [rule.stop_run_none g first c] at hstop
          refine ⟨left, ?_, hstop⟩
          simp only [runAll, List.take_succ_cons, List.map_cons, List.sum_cons]
          omega

/-- Budgets only cut a run, and a run that was cut goes on where it has ended. Any runs one after
the other, each under a budget of its own or none, make together the first merges of one run
without a budget, as many as the budgets allow. Each of them stops for the reason of that run
unless its budget ends it earlier. A further run after that reason does nothing and gives it
again. -/
theorem runAll_cuts_run (rule : Rule) (g : CouplingGraph) (budgets : List (Option Nat))
    (c : Clusters) :
    let whole := rule.run g none c
    let runs := rule.runAll g budgets c
    runs.length = budgets.length ∧
    renumber 0 (runs.flatMap (·.outcome.steps)) =
      whole.outcome.steps.take
        (min (whole.outcome.mergeCount : ℕ∞) (budgets.map allowance).sum).toNat ∧
    (∀ i r budget, runs[i]? = some r → budgets[i]? = some budget →
      ∃ left, ((runs.take i).map (·.outcome.mergeCount)).sum + left = whole.outcome.mergeCount ∧
        r.stop = whole.stop.within left budget) ∧
    ∀ r ∈ runs, r.stop = whole.stop → rule.run g none r.final = ⟨[], whole.stop, r.final⟩ := by
  intro whole runs
  refine ⟨length_runAll rule g budgets c, rule.steps_runAll g budgets c, ?_, ?_⟩
  · intro i r budget hrun hbudget
    exact rule.stop_runAll g budgets c hrun hbudget
  · intro r hr hstop
    obtain ⟨budget, start, rfl⟩ := mem_runAll hr
    exact run_none_of_stop hstop fun b => (rule.stops_run g none c).ne_stepBudget b

theorem runAll_cuts_run_layeredShop :
    let g := CallGraph.Samples.layeredShop.couplingGraph
    let runs := (Rule.identification 7 (.ofNat 1)).runAll g [some 1, some 3, none] (.singletons g)
    ∃ r, runs[1]? = some r ∧ r.stop = .moduleLimit 3 := by
  intro g runs
  let whole := (Rule.identification 7 (.ofNat 1)).run g none (.singletons g)
  have hwhole : whole.outcome.mergeCount = 4 ∧ whole.stop = .moduleLimit 3 := by decide +kernel
  have hfirst : ((runs.take 1).map (·.outcome.mergeCount)).sum = 1 := by decide +kernel
  have h := (runAll_cuts_run (.identification 7 (.ofNat 1)) g [some 1, some 3, none]
    (.singletons g)).2.2.1
  obtain ⟨left, hleft, hstop⟩ := h 1 runs[1] (some 3) rfl rfl
  have hthree : left = 3 := by
    rw [hfirst, hwhole.1] at hleft
    omega
  rw [hwhole.2, hthree] at hstop
  exact ⟨runs[1], rfl, hstop⟩

end Rule

end ModuleRecovery
