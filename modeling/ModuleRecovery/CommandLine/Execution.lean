import ModuleRecovery.CommandLine.Failure
import ModuleRecovery.CommandLine.FileTree
import ModuleRecovery.CommandLine.Request
import ModuleRecovery.Dot
import ModuleRecovery.Json.Printer
import ModuleRecovery.Json.Report
import ModuleRecovery.Log
import ModuleRecovery.Toml.Settings

/-!
What a request comes to: the text it prints and the file it writes, from the files it reads. Where
settings matter they are looked at before the call graph.
-/

namespace ModuleRecovery

/-- A file to be written. Its writing may be told to the user. -/
structure OutputFile where
  path : String
  content : String
  told : Bool
  deriving DecidableEq, Repr

/-- All that a request comes to. The file is written before the text is printed. -/
structure Product where
  printed : String
  file : Option OutputFile
  log : List LogEntry
  deriving DecidableEq, Repr

namespace CallGraph

def load (read : Reading) (path : String) : Except Failure CallGraph :=
  match read.text path with
  | .error e => .error (.callGraph path (.unreadable path e.message))
  | .ok text => (ofText text).mapError (.callGraph path)

end CallGraph

namespace Settings

/-- The settings of a file, or the standard ones where none is named. -/
def load (read : Reading) : Option String → Except Failure Settings
  | none => .ok standard
  | some path =>
      if read.isThere path then
        match read.text path with
        | .error e => .error (.settings path (.unreadable (path ++ ": " ++ e.message)))
        | .ok text => (ofText text).mapError (.settings path)
      else .error (.settings path (.notFound path))

/-- The settings with what the arguments choose in place of what they held. -/
def override (s : Settings) (minimum : Option Binary64) (totalClasses stepBudget : Option Nat) :
    Settings :=
  { s with
    minCouplingAverage := minimum.getD s.minCouplingAverage
    totalClasses := totalClasses <|> s.totalClasses
    stepBudget := stepBudget <|> s.stepBudget }

end Settings

namespace Json

/-- A document on lines of its own. -/
def page (j : Json) : String := j.write .indented ++ "\n"

end Json

/-- An analysis as a text in four parts. -/
def Analysis.page (a : Analysis) : String :=
  let report := a.report
  let stats := report.stats
  s!"{report.classes.length} classes, {stats.edges} call edges ({stats.crossClassEdges}" ++
    s!" cross-class, {stats.unresolvedEdges} unresolved)\n\n" ++
  "Weighted coupling graph:\n" ++ a.graph.listing ++ "\n" ++
  "Hierarchical clustering:\n" ++ report.hierarchical.outcome.listing ++
    a.clustering.final.listing "Clusters" [] ++ "\n" ++
  s!"Module identification (bound {report.modules.maxModules}, min average coupling " ++
    NumberStyle.prose.write report.modules.minCouplingAverage ++ "):\n" ++
    report.modules.outcome.listing ++
    a.identification.final.listing "Modules" report.modules.modules

namespace Request

variable (r : Request) (read : Reading)

def loadSettings : Except Failure Settings := Settings.load read r.settings

def loadCallGraph : Except Failure CallGraph := CallGraph.load read r.input

/-- The settings that the arguments have changed, if they are valid then. -/
def chosenSettings (minimum : Option Binary64) (totalClasses stepBudget : Option Nat) :
    Except Failure Settings := do
  let settings ← r.loadSettings read
  (settings.override minimum totalClasses stepBudget).checked.mapError .refused

/-- The coupling of two classes. -/
def runCoupling (source target : ClassName) (format : Format) : Except Failure Product := do
  let g ← r.loadCallGraph read
  let value ← (g.pairwiseCoupling source target).mapError .coupling
  return {
    printed := match format with
      | .text =>
          "Coupling(" ++ source ++ ", " ++ target ++ ") = " ++ NumberStyle.prose.write value ++ "\n"
      | .json => (Json.ofFields [("from", .ofText source), ("to", .ofText target),
          ("coupling", .ofBinary64 value)]).sortFields.page
    file := none
    log := ([source, target].filter fun name => name ∉ g.classes.toList).map Log.ofUnknownClass }

/-- The coupling graph, printed or written to a file. -/
def runGraph (format : GraphFormat) (withoutIsolated : Bool) (output : Option String) :
    Except Failure Product := do
  let settings ← r.loadSettings read
  let g := (← r.loadCallGraph read).couplingGraph
  let content := match format with
    | .plain .text => g.listing
    | .plain .json => (Json.ofFields [("classes", .ofTexts g.classes),
        ("edges", .array (g.edges.map CouplingEdge.toJson))]).sortFields.page
    | .dot => g.dot "G" (settings.includeIsolated && !withoutIsolated)
  return {
    printed := if output.isNone then content else ""
    file := output.map fun path => ⟨path, content, false⟩
    log := [] }

/-- Hierarchical clustering. -/
def runCluster (stepBudget : Option Nat) (format : Format) : Except Failure Product := do
  let settings ← r.chosenSettings read none none stepBudget
  let g := (← r.loadCallGraph read).couplingGraph
  let run := g.cluster settings
  return {
    printed := match format with
      | .text => run.outcome.listing ++ "\n" ++ run.final.listing "Clusters" []
      | .json => (Json.ofFields [("outcome", run.outcome.toJson),
          ("clusters", .array (run.final.partition.map NameSet.toJson))]).sortFields.page
    file := none
    log := Log.ofClustering "cluster" g run }

/-- Module identification. -/
def runModules (minCoupling : Option Binary64) (totalClasses stepBudget : Option Nat)
    (format : Format) : Except Failure Product := do
  let settings ← r.chosenSettings read minCoupling totalClasses stepBudget
  let g := (← r.loadCallGraph read).couplingGraph
  let run := g.identifyModules settings
  let report := ModuleReport.ofRun g settings run
  return {
    printed := match format with
      | .text =>
          s!"Module bound: {report.maxModules} (min average coupling " ++
            NumberStyle.prose.write report.minCouplingAverage ++ ")\n" ++
            report.outcome.listing ++ "\n" ++ run.final.listing "Modules" report.modules
      | .json => report.toJson.page
    file := none
    log := Log.ofIdentification "modules" g report run }

/-- The whole analysis. Its coupling graph may be drawn into a file besides. -/
def runAnalyze (minCoupling : Option Binary64) (dot : Option String) (format : Format) :
    Except Failure Product := do
  let settings ← r.loadSettings read
  let g ← r.loadCallGraph read
  let a ← (g.analyze (settings.override minCoupling none none)).mapError .analysis
  return {
    printed := match format with
      | .text => a.page
      | .json => a.report.toJson.page
    file := dot.map fun path => ⟨path, a.graph.dot "G" settings.includeIsolated, !r.quiet⟩
    log := a.log "analyze" }

/-- Whether log entries of a level are told. Warnings are, unless quiet is asked for. -/
def tells : LogLevel → Bool
  | .warning => !r.quiet
  | .info => !r.quiet && 1 ≤ r.verbosity
  | .debug => !r.quiet && 2 ≤ r.verbosity

def execute : Except Failure Product :=
  match r.command with
  | .coupling source target format => r.runCoupling read source target format
  | .graph format withoutIsolated output => r.runGraph read format withoutIsolated output
  | .cluster stepBudget format => r.runCluster read stepBudget format
  | .modules minCoupling totalClasses stepBudget format =>
      r.runModules read minCoupling totalClasses stepBudget format
  | .analyze minCoupling dot format => r.runAnalyze read minCoupling dot format

end Request

end ModuleRecovery
