import ModuleRecovery.Json.Decode
import ModuleRecovery.Run

/-!
The outcome of a run as a JSON document. The reason to stop is a record that tells its kind
itself, in the field `reason`.
-/

namespace ModuleRecovery

/-- The deepest nesting of brackets in a document whose parts are told by a field of their own. -/
def Json.nestingLimit : Nat := 127

namespace MergeStep

def toJson (s : MergeStep) : Json :=
  .ofFields ([("step", .ofNat s.step), ("kept", .ofText s.kept), ("absorbed", .ofText s.absorbed),
    ("coupling", .ofNat s.coupling), ("merged_size", .ofNat s.mergedSize)] ++
    match s.average with
    | some average => [("average", .ofBinary64 average)]
    | none => [])

/-- In a list of fields the average has to stand, at least as null. -/
def ofJson? (j : Json) : Option MergeStep := do
  let fields ← j.record? ["step", "kept", "absorbed", "coupling", "merged_size", "average"] 6
  return {
    step := ← Json.field? fields "step" Json.asCount?
    kept := ← Json.field? fields "kept" Json.asText?
    absorbed := ← Json.field? fields "absorbed" Json.asText?
    coupling := ← Json.field? fields "coupling" Json.asCount?
    mergedSize := ← Json.field? fields "merged_size" Json.asCount?
    average := ← Json.optionalField? fields "average" Json.asBinary64? }

end MergeStep

namespace StopReason

/-- The word for the kind of reason. -/
def kind : StopReason → String
  | singleCluster => "single_cluster"
  | noCoupling => "no_coupling"
  | moduleLimit _ => "module_limit"
  | belowThreshold .. => "below_threshold"
  | stepBudget _ => "step_budget"

/-- What is told besides the kind. -/
def details : StopReason → List (String × Json)
  | singleCluster => []
  | noCoupling => []
  | moduleLimit bound => [("max_modules", .ofNat bound)]
  | belowThreshold keep absorb average minimum =>
      [("keep", .ofText keep), ("absorb", .ofText absorb), ("average", .ofBinary64 average),
        ("minimum", .ofBinary64 minimum)]
  | stepBudget budget => [("budget", .ofNat budget)]

def toJson (r : StopReason) : Json := .ofFields (("reason", .ofText r.kind) :: r.details)

/-- A reason of the given kind from the document of its details. A kind without details may
still be given an object with fields that are passed over. -/
def ofDetails? (kind : String) (details : Json) : Option StopReason :=
  match kind with
  | "single_cluster" => (details.record? [] 0).map fun _ => .singleCluster
  | "no_coupling" => (details.record? [] 0).map fun _ => .noCoupling
  | "module_limit" => do
      let fields ← details.record? ["max_modules"] 1
      return .moduleLimit (← Json.field? fields "max_modules" Json.asCount?)
  | "below_threshold" => do
      let fields ← details.record? ["keep", "absorb", "average", "minimum"] 4
      return .belowThreshold (← Json.field? fields "keep" Json.asText?)
        (← Json.field? fields "absorb" Json.asText?)
        (← Json.field? fields "average" Json.asBinary64?)
        (← Json.field? fields "minimum" Json.asBinary64?)
  | "step_budget" => do
      let fields ← details.record? ["budget"] 1
      return .stepBudget (← Json.field? fields "budget" Json.asCount?)
  | _ => none

/-- A reason that stands inside `depth` brackets. The kind is looked for before the rest is
understood, so the rest has to have a meaning as a whole. A list starts with the kind. -/
def ofJson? (depth : Nat) : Json → Option StopReason
  | .object fields => do
      let entries ← (Json.object fields).entries?
      let rest := fields.filter fun field => Json.text? field.1 ≠ some "reason"
      let kind ← Json.field? entries "reason" Json.asText?
      if Json.isUnique entries "reason" ∧
          (Json.object rest).isMeaningful (Json.nestingLimit - depth) then
        ofDetails? kind (.object rest)
      else none
  | .array (kind :: rest) => do
      let kind ← kind.asText?
      if (Json.array rest).isMeaningful (Json.nestingLimit - depth) then
        ofDetails? kind (.array rest)
      else none
  | _ => none

end StopReason

namespace Outcome

def toJson (o : Outcome) : Json :=
  .ofFields [("steps", .array (o.steps.map MergeStep.toJson)), ("stop", o.stop.toJson)]

/-- An outcome that stands inside `depth` brackets. -/
def ofJson? (depth : Nat) (j : Json) : Option Outcome := do
  let fields ← j.record? ["steps", "stop"] 2
  return {
    steps := ← Json.field? fields "steps" (Json.asList? MergeStep.ofJson?)
    stop := ← Json.field? fields "stop" (StopReason.ofJson? (depth + 1)) }

end Outcome

end ModuleRecovery
