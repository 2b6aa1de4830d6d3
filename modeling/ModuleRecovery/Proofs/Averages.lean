import ModuleRecovery.CallGraph.Samples
import ModuleRecovery.Coupling
import ModuleRecovery.Proofs.Run

/-!
The average coupling within modules. The minimum is checked of a merge before it is made, on
clusters that later merges and later runs may take further. Main statement: after every run of
module identification, one after the other, each cluster of two classes or more still has the
average that was accepted when it was last merged into, and so reaches the minimum.
-/

namespace ModuleRecovery

/-- The last of the steps that kept the cluster `key`. -/
def lastKeeping (steps : List MergeStep) (key : ClassName) : Option MergeStep :=
  (steps.filter fun step => step.kept = key).getLast?

theorem lastKeeping_concat (steps : List MergeStep) (step : MergeStep) (key : ClassName) :
    lastKeeping (steps ++ [step]) key =
      if step.kept = key then some step else lastKeeping steps key := by
  unfold lastKeeping
  rw [List.filter_append]
  by_cases h : step.kept = key
  · simp [h]
  · simp [h]

namespace Clusters

variable {c : Clusters} {g : CouplingGraph} {minimum : Binary64} {steps : List MergeStep}

theorem average_of_sizeOf_eq_one {key : ClassName} (h : c.sizeOf key = 1) :
    c.average g key = .zero := by
  obtain ⟨x, hx⟩ := List.length_eq_one_iff.1 h
  simp [average, CouplingGraph.averageCoupling, CouplingGraph.innerWeights, hx]

theorem average_join_keep (c : Clusters) (g : CouplingGraph) (keep absorb : ClassName) :
    (c.join keep absorb).average g keep = c.mergedAverage g keep absorb := by
  rw [average, membersOf_join_keep, mergedAverage]

/-- Each cluster is a single class or has the average that was recorded when it was last merged
into, which reaches the minimum. -/
def MeetsMinimum (c : Clusters) (g : CouplingGraph) (minimum : Binary64)
    (steps : List MergeStep) : Prop :=
  ∀ key ∈ c.keys, c.sizeOf key = 1 ∨
    ¬c.average g key < minimum ∧
      ∃ step, lastKeeping steps key = some step ∧ step.average = some (c.average g key)

theorem meetsMinimum_singletons (g : CouplingGraph) (minimum : Binary64) :
    (singletons g).MeetsMinimum g minimum [] := by
  intro key hkey
  left
  rw [sizeOf, membersOf_singletons (keys_singletons g ▸ hkey)]
  rfl

end Clusters

namespace Rule

variable {g : CouplingGraph} {bound : Nat} {minimum : Binary64} {made : Nat}
  {c final : Clusters} {steps : List MergeStep}

/-- An accepted merge gives its cluster the average that is recorded; the average of any other
cluster stays, and so does the last step that kept its key. -/
theorem Accepts.meetsMinimum {pair : Candidate}
    (h : (Rule.modules bound minimum).Accepts g c pair)
    (hmin : c.MeetsMinimum g minimum steps) :
    (c.join pair.keep pair.absorb).MeetsMinimum g minimum
      (steps ++ [(Rule.modules bound minimum).record g made c pair]) := by
  have hp := h.isClosest
  intro key hkey
  obtain ⟨hold, habsorb⟩ := (Clusters.mem_keys_join hp.keep_mem hp.keep_lt.ne).1 hkey
  rw [lastKeeping_concat]
  by_cases hkeep : pair.keep = key
  · subst hkeep
    right
    rw [Clusters.average_join_keep]
    exact ⟨h.reaches_minimum bound minimum rfl, _, if_pos rfl, rfl⟩
  · have hmembers := Clusters.membersOf_join_of_ne (c := c) (Ne.symm hkeep) habsorb
    have hlast : ((Rule.modules bound minimum).record g made c pair).kept ≠ key := hkeep
    rw [if_neg hlast, Clusters.sizeOf, Clusters.average, hmembers]
    exact hmin key hold

theorem Reaches.meetsMinimum {later : List MergeStep}
    (hreaches : (Rule.modules bound minimum).Reaches g c later final)
    (hmin : c.MeetsMinimum g minimum steps) : final.MeetsMinimum g minimum (steps ++ later) := by
  induction hreaches with
  | start => simpa using hmin
  | merge made _ haccepts ih =>
      rw [← List.append_assoc]
      exact haccepts.meetsMinimum ih

theorem meetsMinimum_runAll (budgets : List (Option Nat)) (hmin : c.MeetsMinimum g minimum steps)
    (i : Nat) (hi : i < ((Rule.modules bound minimum).runAll g budgets c).length) :
    (((Rule.modules bound minimum).runAll g budgets c)[i]).final.MeetsMinimum g minimum
      (steps ++ (((Rule.modules bound minimum).runAll g budgets c).take (i + 1)).flatMap
        (·.outcome.steps)) :=
  (Reaches.start.runAll_final i hi).meetsMinimum hmin

/-- After each of any number of runs of module identification: the averages list the clusters in
key order, each once and with its size; a single class has the average zero; and any other
cluster reaches the minimum, with the very average of the last step that kept its key. -/
theorem module_averages_reach_minimum (g : CouplingGraph) (totalClasses : Nat)
    (minimum : Binary64) (budgets : List (Option Nat)) :
    let runs := (Rule.identification totalClasses minimum).runAll g budgets (.singletons g)
    runs.length = budgets.length ∧
    ∀ (i : Nat) (hi : i < runs.length),
      let c := runs[i].final
      let steps := (runs.take (i + 1)).flatMap (·.outcome.steps)
      (c.averages g).map (·.key) = c.keys ∧ c.keys.Pairwise (· < ·) ∧
      ∀ entry ∈ c.averages g,
        entry.size = (c.membersOf entry.key).toFinset.card ∧
        (entry.size = 1 → entry.average = .zero) ∧
        (2 ≤ entry.size → ¬entry.average < minimum ∧
          ∃ step, lastKeeping steps entry.key = some step ∧
            step.average = some entry.average) := by
  intro runs
  refine ⟨length_runAll _ _ _ _, ?_⟩
  intro i hi c steps
  have hmin : c.MeetsMinimum g minimum ([] ++ steps) :=
    meetsMinimum_runAll budgets (Clusters.meetsMinimum_singletons g minimum) i hi
  refine ⟨by simp [Clusters.averages, Function.comp_def], c.keys_sorted, ?_⟩
  intro entry hentry
  obtain ⟨key, hkey, rfl⟩ := List.mem_map.1 hentry
  refine ⟨c.sizeOf_eq_card key, Clusters.average_of_sizeOf_eq_one, ?_⟩
  intro hsize
  rcases hmin key hkey with hone | hreaches
  · exact absurd hone (by dsimp only at hsize; omega)
  · exact hreaches

theorem module_averages_reach_minimum_layeredShop :
    let g := CallGraph.Samples.layeredShop.couplingGraph
    let runs := (Rule.identification 7 (.ofNat 1)).runAll g [some 1, none] (.singletons g)
    ∃ _ : 1 < runs.length,
      (⟨"Billing", 4, .ofNat 1⟩ : ModuleCoupling) ∈ runs[1].final.averages g ∧
      ∃ step, lastKeeping ((runs.take 2).flatMap (·.outcome.steps)) "Billing" = some step ∧
        step.average = some (.ofNat 1) := by
  intro g runs
  have hrun : ∃ _ : 1 < runs.length,
      (⟨"Billing", 4, .ofNat 1⟩ : ModuleCoupling) ∈ runs[1].final.averages g := by
    decide +kernel
  obtain ⟨hi, hentry⟩ := hrun
  have h := (module_averages_reach_minimum g 7 (.ofNat 1) [some 1, none]).2 1 hi
  obtain ⟨-, -, hreaches⟩ := h.2.2 _ hentry
  exact ⟨hi, hentry, (hreaches (by decide)).2⟩

end Rule

end ModuleRecovery
