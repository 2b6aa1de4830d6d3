import ModuleRecovery.Analysis
import ModuleRecovery.Error

/-!
Runs as they are made, pass by pass. Each pass looks for the next move and, if that is a merge,
tries it on the clusters as they are. A merge may be refused, and then the run has failed after
what it has told so far. An analysis makes two such runs, once its settings are validated.
-/

namespace ModuleRecovery

/-- What one pass of a run comes to. -/
inductive Pass where
  | merged (step : MergeStep) (after : Clusters)
  | stopped (reason : StopReason)
  | failed (error : MergeError)
  deriving DecidableEq, Repr

/-- What came of something that was tried: all that was told on the way, and a result unless it
failed. -/
structure Attempt (ε α : Type) where
  told : List Event
  result : Except ε α

namespace Attempt

/-- The attempt that a merge came before. -/
def afterMerge (step : MergeStep) (after : Clusters) (rest : Attempt MergeError Run) :
    Attempt MergeError Run where
  told := .merged step after :: rest.told
  result := rest.result.map fun run => { run with merges := (step, after) :: run.merges }

end Attempt

namespace Rule

/-- One pass of a run that has made `made` merges. -/
def pass (rule : Rule) (g : CouplingGraph) (budget : Option Nat) (made : Nat) (c : Clusters) :
    Pass :=
  match rule.next g budget made c with
  | .stop reason => .stopped reason
  | .merge pair average =>
      match c.merge pair.keep pair.absorb with
      | .error error => .failed error
      | .ok (size, after) =>
          .merged ⟨made + 1, pair.keep, pair.absorb, pair.coupling, size, average⟩ after

/-- The rest of a run, pass by pass until it is over. There is none if that takes more passes
than these. -/
def attempt (rule : Rule) (g : CouplingGraph) (budget : Option Nat) :
    Nat → Nat → Clusters → Option (Attempt MergeError Run)
  | 0, _, _ => none
  | passes + 1, made, c =>
      match rule.pass g budget made c with
      | .stopped reason => some ⟨[.stopped reason c], .ok ⟨[], reason, c⟩⟩
      | .failed error => some ⟨[], .error error⟩
      | .merged step after =>
          (rule.attempt g budget passes (made + 1) after).map (.afterMerge step after)

end Rule

/-- An analysis as it is made, each of its runs with so many passes. The settings are validated
before anything is told. -/
def CallGraph.attempt (g : CallGraph) (settings : Settings) (passes : Nat) :
    Option (Attempt Error Analysis) :=
  match settings.validate with
  | .error fault => some ⟨[], .error (.settings (.invalid fault.message))⟩
  | .ok () =>
      let graph := g.couplingGraph
      let start := Clusters.singletons graph
      let budget := settings.stepBudget
      match Rule.hierarchical.attempt graph budget passes 0 start with
      | none => none
      | some ⟨told, .error error⟩ => some ⟨told, .error (.cluster error)⟩
      | some ⟨told, .ok clustering⟩ =>
          match (graph.moduleRule settings).attempt graph budget passes 0 start with
          | none => none
          | some ⟨toldThen, .error error⟩ => some ⟨told ++ toldThen, .error (.cluster error)⟩
          | some ⟨toldThen, .ok identification⟩ =>
              some ⟨told ++ toldThen, .ok ⟨g, settings, graph, clustering, identification⟩⟩

end ModuleRecovery
