import ModuleRecovery.Analysis
import ModuleRecovery.Listing

/-!
The log of an analysis: what was left out, what each run set out with, every merge, and how it
ended.
-/

namespace ModuleRecovery

inductive LogLevel where
  | debug
  | info
  | warning
  deriving DecidableEq, Repr

inductive LogValue where
  | count (n : Nat)
  | number (x : Binary64)
  | text (s : String)
  deriving DecidableEq, Repr

/-- One line of a log: a message and named values. -/
structure LogEntry where
  level : LogLevel
  message : String
  fields : List (String × LogValue)
  deriving DecidableEq, Repr

def LogLevel.word : LogLevel → String
  | debug => "DEBUG"
  | info => "INFO"
  | warning => "WARN"

namespace Log

/-- In a log: the fewest digits, with a power of ten from `1e16` on and below `0.0001`. -/
def numberStyle : NumberStyle where
  plain := some (-4, 16)
  pointZero := true
  plusSign := false
  tie := .up
  nan := "NaN"
  infinity := "inf"

def valueText : LogValue → String
  | .count n => toString n
  | .number x => numberStyle.write x
  | .text s => s

def averageText : Option Binary64 → String
  | none => "None"
  | some average => "Some(" ++ numberStyle.write average ++ ")"

/-- What a listener of that name writes down. -/
def ofEvent (name : String) : Event → LogEntry
  | .merged step after =>
      { level := .debug
        message := "Merged clusters"
        fields := [("run", .text name), ("step", .count step.step), ("kept", .text step.kept),
          ("absorbed", .text step.absorbed), ("coupling", .count step.coupling),
          ("average", .text (averageText step.average)), ("remaining", .count after.size)] }
  | .stopped reason final =>
      { level := .info
        message := "Clustering stopped"
        fields := [("run", .text name), ("clusters", .count final.size),
          ("reason", .text reason.text)] }

/-- A merge that the run refused. -/
def ofRejection : StopReason → List LogEntry
  | .belowThreshold keep absorb average minimum =>
      [{ level := .debug
         message := "Merge rejected by coupling guard"
         fields := [("keep", .text keep), ("absorb", .text absorb), ("average", .number average),
          ("minimum", .number minimum)] }]
  | _ => []

/-- A class of a query that has no calls. -/
def ofUnknownClass (name : ClassName) : LogEntry where
  level := .warning
  message := "Class does not appear in the call graph"
  fields := [("class", .text name)]

def ofUnresolved (edge : MethodName × MethodName) : LogEntry where
  level := .debug
  message := "Unresolved call edge excluded from metrics"
  fields := [("caller", .text edge.1), ("callee", .text edge.2)]

/-- The middle of a run's log: its merges as the listener tells them, the refused one if there is
one, and the end. -/
def ofRun (name : String) (run : Run) : List LogEntry :=
  run.merges.map (fun (step, after) => ofEvent name (.merged step after)) ++
    ofRejection run.stop ++ [ofEvent name (.stopped run.stop run.final)]

def ofClustering (name : String) (g : CouplingGraph) (run : Run) : List LogEntry :=
  [{ level := .info
     message := "Running hierarchical clustering"
     fields := [("classes", .count g.classCount), ("edges", .count g.edgeCount)] }] ++
  ofRun name run ++
  [{ level := .info
     message := "Hierarchical clustering complete"
     fields := [("merges", .count run.merges.length), ("clusters", .count run.final.size)] }]

def ofIdentification (name : String) (g : CouplingGraph) (report : ModuleReport) (run : Run) :
    List LogEntry :=
  [{ level := .info
     message := "Identifying modules"
     fields := [("classes", .count g.classCount), ("max_modules", .count report.maxModules),
      ("min_coupling_average", .number report.minCouplingAverage)] }] ++
  ofRun name run ++
  [{ level := .info
     message := "Module identification complete"
     fields := [("merges", .count run.merges.length), ("modules", .count run.final.size)] }]

end Log

/-- The entry on a line: its level, its message, and its values after their names. -/
def LogEntry.line (e : LogEntry) : String :=
  e.level.word ++ " " ++ e.message ++
    String.join (e.fields.map fun (name, value) => " " ++ name ++ "=" ++ Log.valueText value)

/-- The log of an analysis that a listener of that name takes part in. -/
def Analysis.log (a : Analysis) (name : String) : List LogEntry :=
  let report := a.report
  a.callGraph.unresolvedEdges.map Log.ofUnresolved ++
  [{ level := .info
     message := "Building coupling graph"
     fields := [("methods", .count report.stats.methods), ("edges", .count report.stats.edges),
      ("unresolved", .count report.stats.unresolvedEdges)] }] ++
  Log.ofClustering name a.graph a.clustering ++
  Log.ofIdentification name a.graph report.modules a.identification ++
  [{ level := .info
     message := "Analysis complete"
     fields := [("classes", .count report.classes.length),
      ("clusters", .count report.hierarchical.clusters.length),
      ("modules", .count report.modules.clusters.length)] }]

end ModuleRecovery
