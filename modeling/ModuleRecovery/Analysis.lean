import ModuleRecovery.Coupling
import ModuleRecovery.Run.Event
import ModuleRecovery.Settings

/-!
The whole analysis of a call graph: its coupling graph, hierarchical clustering of that graph,
and module identification on it, each run starting from one cluster for each class.
-/

namespace ModuleRecovery

namespace CouplingGraph

/-- Hierarchical clustering within the budget of the settings. -/
def cluster (g : CouplingGraph) (settings : Settings) : Run :=
  Rule.hierarchical.run g settings.stepBudget (.singletons g)

/-- The rule of module identification: the number of classes of the settings bounds the modules,
or that of the graph where none is set. -/
def moduleRule (g : CouplingGraph) (settings : Settings) : Rule :=
  .identification (settings.totalClasses.getD g.classCount) settings.minCouplingAverage

/-- Module identification within the budget of the settings. -/
def identifyModules (g : CouplingGraph) (settings : Settings) : Run :=
  (g.moduleRule settings).run g settings.stepBudget (.singletons g)

end CouplingGraph

structure PartitionReport where
  outcome : Outcome
  clusters : List NameSet
  deriving DecidableEq, Repr

structure ModuleReport where
  maxModules : Nat
  minCouplingAverage : Binary64
  outcome : Outcome
  modules : List ModuleCoupling
  clusters : List NameSet
  deriving DecidableEq, Repr

/-- All that an analysis has to tell. -/
structure AnalysisReport where
  stats : CallGraphStats
  classes : List ClassName
  coupling : List CouplingEdge
  hierarchical : PartitionReport
  modules : ModuleReport
  deriving DecidableEq, Repr

/-- What is told of the module identification that has run on a graph. -/
def ModuleReport.ofRun (g : CouplingGraph) (settings : Settings) (run : Run) : ModuleReport where
  maxModules := moduleBound (settings.totalClasses.getD g.classCount)
  minCouplingAverage := settings.minCouplingAverage
  outcome := run.outcome
  modules := run.final.averages g
  clusters := run.final.partition

/-- A finished analysis. -/
structure Analysis where
  callGraph : CallGraph
  settings : Settings
  graph : CouplingGraph
  clustering : Run
  identification : Run
  deriving DecidableEq, Repr

/-- Analyzes a call graph. Invalid settings are refused before anything else. -/
def CallGraph.analyze (g : CallGraph) (settings : Settings) : Except SettingsError Analysis := do
  let settings ← settings.checked
  let graph := g.couplingGraph
  return {
    callGraph := g
    settings := settings
    graph := graph
    clustering := graph.cluster settings
    identification := graph.identifyModules settings }

namespace Analysis

def report (a : Analysis) : AnalysisReport where
  stats := a.callGraph.stats
  classes := a.graph.classes
  coupling := a.graph.edges
  hierarchical := ⟨a.clustering.outcome, a.clustering.final.partition⟩
  modules := .ofRun a.graph a.settings a.identification

/-- All that the two runs tell, one run after the other. -/
def events (a : Analysis) : List Event := a.clustering.events ++ a.identification.events

end Analysis

end ModuleRecovery
