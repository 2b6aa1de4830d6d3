import ModuleRecovery.Analysis
import ModuleRecovery.Proofs.Json.Values

/-!
Call graphs survive their text. The owners of methods have no order of their own, so they may be
listed in any. Main statement: a call graph of any names, written with or without blanks, reads
back to itself, and so its analysis is the same.
-/

namespace ModuleRecovery

namespace CallGraph

/-- The document of a call graph with its owners listed in the given order. -/
def listing (g : CallGraph) (owners : List (MethodName × ClassName)) : Json :=
  .ofFields [("calls", g.calls.toJson .ofTexts),
    ("owners", .ofFields (owners.map fun (method, owner) => (method, Json.ofText owner)))]

/-- The document that a call graph is written as lists the owners by the names of the methods. -/
theorem toJson_eq_listing (g : CallGraph) : g.toJson = g.listing g.owners.entries := rfl

theorem isWritten_listing (g : CallGraph) (owners : List (MethodName × ClassName)) :
    (g.listing owners).IsWritten := by
  have hcalls : (g.calls.toJson .ofTexts).IsWritten :=
    Json.isWritten_ofFields (List.forall_mem_map.2 fun entry _ => Json.isWritten_ofTexts entry.2)
  have howners :
      (Json.ofFields (owners.map fun (method, owner) => (method, Json.ofText owner))).IsWritten :=
    Json.isWritten_ofFields (List.forall_mem_map.2 fun entry _ => Json.isWritten_ofText entry.2)
  apply Json.isWritten_ofFields
  simp only [List.forall_mem_cons]
  exact ⟨hcalls, howners, List.forall_mem_nil _⟩

theorem ofJson?_listing (g : CallGraph) {owners : List (MethodName × ClassName)}
    (hperm : owners.Perm g.owners.entries) : ofJson? (g.listing owners) = some g := by
  have hcalls : (g.calls.toJson .ofTexts).asTable? (Json.asList? Json.asText?) = some g.calls :=
    Json.asTable?_ofFields (List.Perm.refl _) fun entry _ => Json.asList?_ofTexts entry.2
  have howners :
      (Json.ofFields (owners.map fun (method, owner) => (method, Json.ofText owner))).asTable?
        Json.asText? = some g.owners :=
    Json.asTable?_ofFields hperm fun entry _ => Json.asText?_ofText entry.2
  have hrecord : (g.listing owners).record? ["calls", "owners"] 0 = some _ :=
    Json.record?_ofFields (by simp) _ _
  simp [ofJson?, hrecord, List.lookup_cons, hcalls, howners]

/-- A call graph survives its text: whatever its names, repeated calls and unused owners, in
whichever order the owners are listed, and whatever blanks stand between the tokens, the graph that
is read is the one that was written, and all settings give it the same analysis. -/
theorem ofText_write_listing (g : CallGraph) {owners : List (MethodName × ClassName)}
    (hperm : owners.Perm g.owners.entries) {s : Json.Spacing} (hs : s.IsBlank) :
    ofText (Json.write s (g.listing owners)) = .ok g ∧
      ∀ loaded, ofText (Json.write s (g.listing owners)) = .ok loaded →
        ∀ settings : Settings, loaded.analyze settings = g.analyze settings := by
  have hread : ofText (Json.write s (g.listing owners)) = .ok g := by
    rw [ofText, Json.read?_write hs (g.isWritten_listing owners)]
    simp only [ofJson?_listing g hperm]
  refine ⟨hread, ?_⟩
  intro loaded hloaded settings
  rw [hread, Except.ok.injEq] at hloaded
  rw [hloaded]

/-- Names of quotes, backslashes, control characters and letters outside of ASCII, an empty name,
a repeated call, a method with an owner and no calls, and the owners listed backwards. -/
theorem ofText_write_listing_backwards :
    let g : CallGraph := {
      calls := .ofList [("", ["é\n", "é\n"]), ("é\n", ["\\u0041", ""]), ("\t", [])]
      owners := .ofList [("", "\"\\\x01"), ("é\n", ""), ("unused", "日本")] }
    let owners := g.owners.entries.reverse
    owners ≠ g.owners.entries ∧
      (ofText (Json.write .compact (g.listing owners)) = .ok g ∧
        ∀ loaded, ofText (Json.write .compact (g.listing owners)) = .ok loaded →
          ∀ settings : Settings, loaded.analyze settings = g.analyze settings) ∧
      (ofText (Json.write .indented (g.listing owners)) = .ok g ∧
        ∀ loaded, ofText (Json.write .indented (g.listing owners)) = .ok loaded →
          ∀ settings : Settings, loaded.analyze settings = g.analyze settings) := by
  intro g owners
  have hbackwards : owners ≠ g.owners.entries := by decide +kernel
  have hperm : owners.Perm g.owners.entries := List.reverse_perm g.owners.entries
  exact ⟨hbackwards, ofText_write_listing g hperm Json.Spacing.isBlank_compact,
    ofText_write_listing g hperm Json.Spacing.isBlank_indented⟩

end CallGraph

end ModuleRecovery
