import ModuleRecovery.CallGraph
import ModuleRecovery.Clusters
import ModuleRecovery.Error
import ModuleRecovery.Json.Decode
import ModuleRecovery.Json.Reader

/-!
Call graphs, coupling graphs and clusters as JSON documents.
-/

namespace ModuleRecovery

/-- A table as an object. -/
def Table.toJson {β : Type} (encode : β → Json) (t : Table β) : Json :=
  .ofFields (t.entries.map fun (name, value) => (name, encode value))

def NameSet.toJson (s : NameSet) : Json := .ofTexts s.toList

namespace CallGraph

def toJson (g : CallGraph) : Json :=
  .ofFields [("calls", g.calls.toJson .ofTexts), ("owners", g.owners.toJson .ofText)]

/-- Both parts may be missing. -/
def ofJson? (j : Json) : Option CallGraph := do
  let fields ← j.record? ["calls", "owners"] 0
  let calls ← match fields.lookup "calls" with
    | none => some .empty
    | some value => value.asTable? (Json.asList? Json.asText?)
  let owners ← match fields.lookup "owners" with
    | none => some .empty
    | some value => value.asTable? Json.asText?
  return ⟨calls, owners⟩

/-- Reads a call graph from a text. When a text is refused is the rule of the format; the words that
it is refused with are this library's own. -/
def ofText (text : String) : Except InputError CallGraph :=
  match Json.read? text with
  | none => .error (.malformed "not a document")
  | some j =>
      match ofJson? j with
      | none => .error (.malformed "not a call graph")
      | some g => .ok g

end CallGraph

namespace CouplingGraph

def toJson (g : CouplingGraph) : Json := g.rows.toJson fun row => row.toJson .ofNat

def ofJson? (j : Json) : Option CouplingGraph :=
  (j.asTable? fun row => row.asTable? Json.asCount?).map .mk

end CouplingGraph

namespace CouplingEdge

def toJson (e : CouplingEdge) : Json :=
  .ofFields [("from", .ofText e.source), ("to", .ofText e.target), ("weight", .ofNat e.weight)]

def ofJson? (j : Json) : Option CouplingEdge := do
  let fields ← j.record? ["from", "to", "weight"] 3
  return {
    source := ← Json.field? fields "from" Json.asText?
    target := ← Json.field? fields "to" Json.asText?
    weight := ← Json.field? fields "weight" Json.asCount? }

end CouplingEdge

namespace Clusters

def toJson (c : Clusters) : Json := c.table.toJson NameSet.toJson

def ofJson? (j : Json) : Option Clusters := (j.asTable? Json.asNameSet?).map .mk

end Clusters

end ModuleRecovery
