import ModuleRecovery.Analysis
import ModuleRecovery.Json.Graphs
import ModuleRecovery.Json.Outcome

/-!
The report of an analysis as a JSON document.
-/

namespace ModuleRecovery

namespace CallGraphStats

def toJson (s : CallGraphStats) : Json :=
  .ofFields [("methods", .ofNat s.methods), ("edges", .ofNat s.edges),
    ("resolved_edges", .ofNat s.resolvedEdges), ("cross_class_edges", .ofNat s.crossClassEdges),
    ("unresolved_edges", .ofNat s.unresolvedEdges), ("classes", .ofNat s.classes)]

def ofJson? (j : Json) : Option CallGraphStats := do
  let fields ← j.record? ["methods", "edges", "resolved_edges", "cross_class_edges",
    "unresolved_edges", "classes"] 6
  return {
    methods := ← Json.field? fields "methods" Json.asCount?
    edges := ← Json.field? fields "edges" Json.asCount?
    resolvedEdges := ← Json.field? fields "resolved_edges" Json.asCount?
    crossClassEdges := ← Json.field? fields "cross_class_edges" Json.asCount?
    unresolvedEdges := ← Json.field? fields "unresolved_edges" Json.asCount?
    classes := ← Json.field? fields "classes" Json.asCount? }

end CallGraphStats

namespace ModuleCoupling

def toJson (m : ModuleCoupling) : Json :=
  .ofFields [("key", .ofText m.key), ("size", .ofNat m.size), ("average", .ofBinary64 m.average)]

def ofJson? (j : Json) : Option ModuleCoupling := do
  let fields ← j.record? ["key", "size", "average"] 3
  return {
    key := ← Json.field? fields "key" Json.asText?
    size := ← Json.field? fields "size" Json.asCount?
    average := ← Json.field? fields "average" Json.asBinary64? }

end ModuleCoupling

namespace PartitionReport

def toJson (r : PartitionReport) : Json :=
  .ofFields [("outcome", r.outcome.toJson), ("clusters", .array (r.clusters.map NameSet.toJson))]

def ofJson? (depth : Nat) (j : Json) : Option PartitionReport := do
  let fields ← j.record? ["outcome", "clusters"] 2
  return {
    outcome := ← Json.field? fields "outcome" (Outcome.ofJson? (depth + 1))
    clusters := ← Json.field? fields "clusters" (Json.asList? Json.asNameSet?) }

end PartitionReport

namespace ModuleReport

def toJson (r : ModuleReport) : Json :=
  .ofFields [("max_modules", .ofNat r.maxModules),
    ("min_coupling_average", .ofBinary64 r.minCouplingAverage), ("outcome", r.outcome.toJson),
    ("modules", .array (r.modules.map ModuleCoupling.toJson)),
    ("clusters", .array (r.clusters.map NameSet.toJson))]

def ofJson? (depth : Nat) (j : Json) : Option ModuleReport := do
  let fields ← j.record? ["max_modules", "min_coupling_average", "outcome", "modules",
    "clusters"] 5
  return {
    maxModules := ← Json.field? fields "max_modules" Json.asCount?
    minCouplingAverage := ← Json.field? fields "min_coupling_average" Json.asBinary64?
    outcome := ← Json.field? fields "outcome" (Outcome.ofJson? (depth + 1))
    modules := ← Json.field? fields "modules" (Json.asList? ModuleCoupling.ofJson?)
    clusters := ← Json.field? fields "clusters" (Json.asList? Json.asNameSet?) }

end ModuleReport

namespace AnalysisReport

def toJson (r : AnalysisReport) : Json :=
  .ofFields [("stats", r.stats.toJson), ("classes", .ofTexts r.classes),
    ("coupling", .array (r.coupling.map CouplingEdge.toJson)),
    ("hierarchical", r.hierarchical.toJson), ("modules", r.modules.toJson)]

def ofJson? (j : Json) : Option AnalysisReport := do
  let fields ← j.record? ["stats", "classes", "coupling", "hierarchical", "modules"] 5
  return {
    stats := ← Json.field? fields "stats" CallGraphStats.ofJson?
    classes := ← Json.field? fields "classes" (Json.asList? Json.asText?)
    coupling := ← Json.field? fields "coupling" (Json.asList? CouplingEdge.ofJson?)
    hierarchical := ← Json.field? fields "hierarchical" (PartitionReport.ofJson? 1)
    modules := ← Json.field? fields "modules" (ModuleReport.ofJson? 1) }

end AnalysisReport

end ModuleRecovery
