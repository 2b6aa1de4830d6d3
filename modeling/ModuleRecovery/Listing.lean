import ModuleRecovery.Decimal
import ModuleRecovery.Run

/-!
Plain listings: a coupling graph, the steps of a run, and the clusters it left.
-/

namespace ModuleRecovery

def StopReason.text : StopReason → String
  | singleCluster => "single cluster remaining"
  | noCoupling => "no coupling left between clusters"
  | moduleLimit bound => "reached module limit of " ++ toString bound
  | belowThreshold keep absorb average minimum =>
      "merging " ++ keep ++ " and " ++ absorb ++ " gives average coupling " ++ average.fourPlaces ++
        ", below minimum " ++ NumberStyle.prose.write minimum
  | stepBudget budget => "step budget of " ++ toString budget ++ " exhausted"

/-- The lines, each with its line end. -/
def joinLines (lines : List String) : String := String.join (lines.map fun line => line ++ "\n")

/-- A line for each edge, and one for each class that calls no other. -/
def CouplingGraph.listing (g : CouplingGraph) : String :=
  joinLines (g.rows.entries.flatMap fun (source, row) =>
    match row.entries.filter fun entry => 0 < entry.2 with
    | [] => [source ++ " --(0)--> No calls"]
    | edges => edges.map fun (target, weight) => s!"{source} --({weight})--> {target}")

def MergeStep.line (s : MergeStep) : String :=
  s!"Step {s.step}: merged {s.absorbed} and {s.kept} " ++
    s!"(coupling {s.coupling}, size {s.mergedSize})" ++
    match s.average with
    | some average => ", average " ++ average.fourPlaces
    | none => ""

/-- A line for each merge, and one for the reason to stop. -/
def Outcome.listing (o : Outcome) : String :=
  joinLines (o.steps.map MergeStep.line ++ ["Stopped: " ++ o.stop.text])

/-- The title of a list as it names one entry: without its last letter if that is an `s`. -/
def singular (title : String) : String :=
  match title.toList.reverse with
  | 's' :: rest => String.ofList rest.reverse
  | _ => title

/-- A numbered line for each cluster with its members and, where one is given for its key, its
average coupling. -/
def Clusters.listing (c : Clusters) (title : String) (averages : List ModuleCoupling) : String :=
  let line (place : Nat) (entry : ClassName × NameSet) : String :=
    s!"  {singular title} {place + 1}: [" ++ ", ".intercalate entry.2.toList ++ "]" ++
      match averages.find? fun m => m.key = entry.1 with
      | some m => " average coupling " ++ m.average.fourPlaces
      | none => ""
  joinLines (s!"{title} ({c.size} total):" :: c.table.entries.mapIdx line)

end ModuleRecovery
