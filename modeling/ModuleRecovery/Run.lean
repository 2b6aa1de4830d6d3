import ModuleRecovery.Linkage

/-!
Clustering runs. A run merges the most strongly coupled pair of clusters again and again until
its rule, its budget or a lack of coupling stops it. Hierarchical clustering goes on to the end;
module identification stops at a bound on the number of clusters, or when the best merge would
give a cluster whose average coupling is below a minimum.
-/

namespace ModuleRecovery

/-- One merge of a run. The average is known where the rule of the run looks at it. -/
structure MergeStep where
  /-- Its number in the run, from one. -/
  step : Nat
  kept : ClassName
  absorbed : ClassName
  coupling : Nat
  mergedSize : Nat
  average : Option Binary64
  deriving DecidableEq, Repr

/-- Why a run stopped. -/
inductive StopReason where
  | singleCluster
  | noCoupling
  | moduleLimit (bound : Nat)
  | belowThreshold (keep absorb : ClassName) (average minimum : Binary64)
  | stepBudget (budget : Nat)
  deriving DecidableEq, Repr

/-- What a run did: its merges in order, and why it stopped. -/
structure Outcome where
  steps : List MergeStep
  stop : StopReason
  deriving DecidableEq, Repr

def Outcome.mergeCount (o : Outcome) : Nat := o.steps.length

/-- What stops a run besides its budget and a lack of coupling. -/
inductive Rule where
  | hierarchical
  | modules (bound : Nat) (minimum : Binary64)
  deriving DecidableEq, Repr

/-- What a run does next. -/
inductive Move where
  | stop (reason : StopReason)
  | merge (pair : Candidate) (average : Option Binary64)
  deriving DecidableEq, Repr

/-- A finished run: each step with the clusters after it, the reason to stop, and the clusters
at the end. -/
structure Run where
  merges : List (MergeStep × Clusters)
  stop : StopReason
  final : Clusters
  deriving DecidableEq, Repr

def Run.outcome (r : Run) : Outcome := ⟨r.merges.map Prod.fst, r.stop⟩

/-- Module identification aims at half as many clusters as there are classes, rounded down. -/
def moduleBound (totalClasses : Nat) : Nat := totalClasses / 2

namespace Rule

def identification (totalClasses : Nat) (minimum : Binary64) : Rule :=
  .modules (moduleBound totalClasses) minimum

/-- The reason to stop at this number of clusters, if it is one. -/
def limit? : Rule → Nat → Option StopReason
  | hierarchical, clusters => if clusters ≤ 1 then some .singleCluster else none
  | modules bound _, clusters => if clusters ≤ bound then some (.moduleLimit bound) else none

/-- Whether the best pair is merged. A rejected merge ends the run. -/
def judge (rule : Rule) (g : CouplingGraph) (c : Clusters) (pair : Candidate) : Move :=
  match rule with
  | hierarchical => .merge pair none
  | modules _ minimum =>
      let average := c.mergedAverage g pair.keep pair.absorb
      if average < minimum then .stop (.belowThreshold pair.keep pair.absorb average minimum)
      else .merge pair (some average)

/-- The next move after `made` merges: the number of clusters is looked at first, then the
budget, and then the best pair. -/
def next (rule : Rule) (g : CouplingGraph) (budget : Option Nat) (made : Nat) (c : Clusters) :
    Move :=
  match rule.limit? c.size with
  | some reason => .stop reason
  | none =>
      match budget.filter fun b => b ≤ made with
      | some b => .stop (.stepBudget b)
      | none =>
          match c.closestPair g with
          | none => .stop .noCoupling
          | some pair => rule.judge g c pair

theorem closestPair_of_next {rule : Rule} {g : CouplingGraph} {budget : Option Nat} {made : Nat}
    {c : Clusters} {pair : Candidate} {average : Option Binary64}
    (h : rule.next g budget made c = .merge pair average) : c.closestPair g = some pair := by
  unfold next at h
  split at h
  · cases h
  · split at h
    · cases h
    · split at h
      · cases h
      · rename_i best hbest
        have hpair : best = pair := by
          cases rule with
          | hierarchical =>
              simp only [judge, Move.merge.injEq] at h
              exact h.1
          | modules bound minimum =>
              simp only [judge] at h
              split at h
              · cases h
              · simp only [Move.merge.injEq] at h
                exact h.1
        rw [hbest, hpair]

/-- The rest of a run that has made `made` merges and left the clusters `c`. Every merge leaves
one cluster less, so it ends. -/
def runFrom (rule : Rule) (g : CouplingGraph) (budget : Option Nat) (made : Nat) (c : Clusters) :
    Run :=
  match h : rule.next g budget made c with
  | .stop reason => ⟨[], reason, c⟩
  | .merge pair average =>
      have := Clusters.size_join_closestPair_lt (closestPair_of_next h)
      let after := c.join pair.keep pair.absorb
      let step : MergeStep :=
        ⟨made + 1, pair.keep, pair.absorb, pair.coupling, after.sizeOf pair.keep, average⟩
      let rest := rule.runFrom g budget (made + 1) after
      ⟨(step, after) :: rest.merges, rest.stop, rest.final⟩
termination_by c.size

/-- A run on the given clusters, stopped after at most `budget` merges if there is one. -/
def run (rule : Rule) (g : CouplingGraph) (budget : Option Nat) (c : Clusters) : Run :=
  rule.runFrom g budget 0 c

/-- One run after the other, each on the clusters that the one before it left. -/
def runAll (rule : Rule) (g : CouplingGraph) : List (Option Nat) → Clusters → List Run
  | [], _ => []
  | budget :: budgets, c =>
      let first := rule.run g budget c
      first :: rule.runAll g budgets first.final

end Rule

end ModuleRecovery
