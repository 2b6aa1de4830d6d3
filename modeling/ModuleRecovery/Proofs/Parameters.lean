import ModuleRecovery.Proofs.Budgets
import ModuleRecovery.Proofs.Prefixes

/-!
Module identification under other parameters. A greater number of classes raises the bound, a
greater minimum rejects more pairs and a smaller budget ends earlier, and each of them ends the run
where it acts. Main statement: with stricter parameters module identification makes the first merges
of the run with looser ones, so its modules are parts of the modules there.
-/

namespace ModuleRecovery

theorem allowance_le_iff {budget wider : Option Nat} :
    allowance budget ≤ allowance wider ↔
      ∀ b, wider = some b → ∃ b', budget = some b' ∧ b' ≤ b := by
  cases wider with
  | none => simp [allowance]
  | some b => cases budget <;> simp [allowance]

namespace Rule

variable {g : CouplingGraph}

theorem moduleBound_mono {classes classes' : Nat} (h : classes ≤ classes') :
    moduleBound classes ≤ moduleBound classes' :=
  Nat.div_le_div_right h

/-- A greater bound and a greater minimum accept less, and write down the same. -/
theorem modules_stricter_modules (g : CouplingGraph) {bound bound' : Nat}
    {minimum minimum' : Binary64} (hbound : bound ≤ bound') (hminimum : minimum ≤ minimum') :
    (Rule.modules bound' minimum').Stricter (.modules bound minimum) g id where
  accepts := by
    intro c pair h
    refine ⟨hbound.trans_lt h.bound_lt, h.closest, ?_⟩
    rintro _ _ ⟨⟩ hlt
    exact h.reaches_minimum _ _ rfl (Binary64.lt_of_lt_of_le hlt hminimum)
  view_record := by
    intro made c pair
    rfl

/-- With more classes to count on, a greater minimum and a smaller budget, module identification
makes the first of the merges that it makes otherwise, with the same couplings, sizes and averages.
So each of its modules lies within one module of the run with the looser parameters. The order
between the minimums says that both are numbers. -/
theorem identification_monotone (g : CouplingGraph) {classes classes' : Nat}
    {minimum minimum' : Binary64} {budget budget' : Option Nat} (hclasses : classes ≤ classes')
    (hminimum : minimum ≤ minimum') (hbudget : allowance budget' ≤ allowance budget) :
    let looser := (Rule.identification classes minimum).run g budget (.singletons g)
    let stricter := (Rule.identification classes' minimum').run g budget' (.singletons g)
    stricter.outcome.steps <+: looser.outcome.steps ∧
      ∀ key ∈ stricter.final.keys, ∃! key', key' ∈ looser.final.keys ∧
        stricter.final.memberSet key ⊆ looser.final.memberSet key' := by
  intro looser stricter
  have hstricter := modules_stricter_modules g (moduleBound_mono hclasses) hminimum
  obtain ⟨rest, path, hsteps⟩ :=
    hstricter.run_eq (allowance_le_iff.1 hbudget) (.singletons g)
  rw [List.map_id, List.map_id] at hsteps
  obtain ⟨-, hcohesive⟩ := ((Rule.identification classes' minimum').path_run g budget'
    (.singletons g)).cohesive
  obtain ⟨hpart, -⟩ := ((Rule.identification classes minimum).path_run g budget
    (.singletons g)).cohesive
  have hfiner : stricter.final.Finer looser.final := path.finer
  refine ⟨⟨_, hsteps.symm⟩, ?_⟩
  intro key hkey
  exact hfiner.existsUnique hpart hkey (hcohesive.least key hkey).1

/-- The stricter minimum is the average of the first two merges, which it does not reject, and the
greater bound and the budget leave room for more. -/
theorem identification_monotone_layeredShop :
    let g := CallGraph.Samples.layeredShop.couplingGraph
    let looser := (Rule.identification 2 (.ofNat 1)).run g none (.singletons g)
    let stricter := (Rule.identification 3 (.ofNat 3)).run g (some 5) (.singletons g)
    2 ≤ 3 ∧ Binary64.ofNat 1 ≤ .ofNat 3 ∧ allowance (some 5) ≤ allowance none ∧
      stricter.outcome.steps <+: looser.outcome.steps ∧
      ∀ key ∈ stricter.final.keys, ∃! key', key' ∈ looser.final.keys ∧
        stricter.final.memberSet key ⊆ looser.final.memberSet key' := by
  intro g looser stricter
  have hminimum : Binary64.ofNat 1 ≤ .ofNat 3 := by decide +kernel
  have hbudget : allowance (some 5) ≤ allowance none := le_top
  exact ⟨by decide, hminimum, hbudget,
    identification_monotone g (by decide : 2 ≤ 3) hminimum hbudget⟩

end Rule

end ModuleRecovery
