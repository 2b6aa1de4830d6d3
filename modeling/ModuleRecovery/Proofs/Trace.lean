import ModuleRecovery.CallGraph.Samples
import ModuleRecovery.Coupling
import ModuleRecovery.Proofs.Run

/-!
What the recorded steps of a run say. Main statement: making the recorded merges again gives the
clusters at the end of the run, and every step tells of the clusters just before it which pair
is closest, how strongly it is coupled, how large the two are together and which average the
rule has looked at.
-/

namespace ModuleRecovery

/-- Makes recorded merges again, one after the other, until one of them fails. -/
def Clusters.replay (c : Clusters) : List MergeStep → Except MergeError Clusters
  | [] => .ok c
  | step :: rest => do
      let (_, after) ← c.merge step.kept step.absorbed
      after.replay rest

def MergeStep.pair (step : MergeStep) : Candidate := ⟨step.kept, step.absorbed, step.coupling⟩

/-- The step is the merge of this number that the rule makes from the clusters `before`. -/
structure MergeStep.Describes (step : MergeStep) (rule : Rule) (g : CouplingGraph) (number : Nat)
    (before : Clusters) : Prop where
  step_eq : step.step = number
  closest : before.IsClosest g step.pair
  mergedSize_eq : step.mergedSize =
    ((before.membersOf step.kept).toFinset ∪ (before.membersOf step.absorbed).toFinset).card
  average_eq : step.average = rule.average? g before step.pair

namespace Rule

variable {rule : Rule} {g : CouplingGraph} {made : Nat} {c final : Clusters}

theorem Accepts.replay_record {pair : Candidate} (h : rule.Accepts g c pair)
    (rest : List MergeStep) :
    c.replay (rule.record g made c pair :: rest) = (c.join pair.keep pair.absorb).replay rest := by
  have hp := h.isClosest
  have hmerge := Clusters.merge_eq_ok hp.keep_mem hp.absorb_mem hp.keep_lt.ne
  simp only [Clusters.replay, record, hmerge]
  rfl

theorem Accepts.describes_record {pair : Candidate} (h : rule.Accepts g c pair) :
    (rule.record g made c pair).Describes rule g (made + 1) c where
  step_eq := rfl
  closest := h.isClosest
  mergedSize_eq := c.sizeOf_join_keep pair.keep pair.absorb
  average_eq := rfl

theorem Path.replay {merges : List (MergeStep × Clusters)}
    (path : rule.Path g made c merges final) : c.replay (merges.map Prod.fst) = .ok final := by
  induction path with
  | nil => rfl
  | cons haccepts _ ih =>
      rw [List.map_cons, haccepts.replay_record]
      exact ih

/-- Each merge of a path describes the clusters that the merges before it lead to. -/
theorem Path.describes {first rest : List (MergeStep × Clusters)} {m : MergeStep × Clusters}
    (path : rule.Path g made c (first ++ m :: rest) final) :
    ∃ before, c.replay (first.map Prod.fst) = .ok before ∧
      m.1.Describes rule g (made + first.length + 1) before := by
  obtain ⟨before, hfirst, hrest⟩ := path.split
  refine ⟨before, hfirst.replay, ?_⟩
  cases hrest with
  | cons haccepts _ => exact haccepts.describes_record

/-- The steps of a run are a faithful account of it, whatever the rule, the budget and the
clusters at the start. -/
theorem run_trace_faithful (rule : Rule) (g : CouplingGraph) (budget : Option Nat)
    (c : Clusters) :
    let r := rule.run g budget c
    c.replay r.outcome.steps = .ok r.final ∧
      ∀ (i : Nat) (hi : i < r.outcome.steps.length),
        ∃ before, c.replay (r.outcome.steps.take i) = .ok before ∧
          r.outcome.steps[i].Describes rule g (i + 1) before := by
  intro r
  have path := rule.path_run g budget c
  refine ⟨path.replay, ?_⟩
  intro i hi
  have hi' : i < r.merges.length := by simpa [Run.outcome] using hi
  have hsplit : r.merges = r.merges.take i ++ r.merges[i] :: r.merges.drop (i + 1) := by simp
  obtain ⟨before, hreplay, hdescribes⟩ := Path.describes (hsplit ▸ path)
  refine ⟨before, ?_, ?_⟩
  · simpa [Run.outcome, List.map_take] using hreplay
  · simpa [Run.outcome, hi'.le] using hdescribes

theorem run_trace_faithful_layeredShop :
    let g := CallGraph.Samples.layeredShop.couplingGraph
    let rule := Rule.identification 7 (.ofNat 1)
    let r := rule.run g none (.singletons g)
    ∃ _ : 3 < r.outcome.steps.length, ∃ before,
      (Clusters.singletons g).replay (r.outcome.steps.take 3) = .ok before ∧
        r.outcome.steps[3].Describes rule g 4 before := by
  intro g rule r
  have hi : 3 < r.outcome.steps.length := by decide +kernel
  exact ⟨hi, (run_trace_faithful rule g none (.singletons g)).2 3 hi⟩

end Rule

end ModuleRecovery
