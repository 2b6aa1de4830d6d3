import ModuleRecovery.Json.Outcome
import ModuleRecovery.Json.Report
import ModuleRecovery.Proofs.Json.Values

/-!
Outcomes and reports survive their text. Each record is lossless because its parts are. The reason
to stop is looked at twice, once for its kind and once for the rest, and the rest has to have a
meaning as a whole; what is written has one. Main statement: outcomes and reports of any names and
counts read back from their text, and a text of either kind, whatever its form, comes to rest when
what was read is written.
-/

namespace ModuleRecovery

open Json (Lossless)

namespace MergeStep

def figures (s : MergeStep) : List Figure :=
  [.count s.step, .count s.coupling, .count s.mergedSize] ++ s.average.toList.map .number

theorem lossless : Lossless toJson ofJson? figures where
  isWritten := by
    intro s
    apply Json.isWritten_ofFields
    cases s.average <;> simp
  decode_encode := by
    intro s hfits hreads
    obtain ⟨step, kept, absorbed, coupling, size, average⟩ := s
    simp only [figures, List.forall_mem_append, List.forall_mem_cons, Figure.fits_count]
      at hfits hreads
    obtain ⟨⟨hstep, hcoupling, hsize, -⟩, hfinite⟩ := hfits
    have hrecord (names : List String) (required : Nat) :
        (toJson ⟨step, kept, absorbed, coupling, size, average⟩).record? names required = some _ :=
      Json.record?_ofFields (by cases average <;> simp) _ _
    cases average with
    | none =>
        have hmissing : Json.optionalField? [] "average" Json.asBinary64? = some none := rfl
        simp [ofJson?, hrecord, hstep, hcoupling, hsize, hmissing]
    | some x =>
        have hx : Json.asBinary64? (.ofBinary64 x) = some x :=
          Json.asBinary64?_ofBinary64 (hfinite (.number x) (by simp))
            (hreads.2 (.number x) (by simp))
        simp [ofJson?, hrecord, hstep, hcoupling, hsize, Json.optionalField?_cons_self rfl hx]
  fits := by
    intro j s h
    simp only [ofJson?, Option.bind_eq_bind, Option.bind_eq_some_iff, Option.pure_def,
      Option.some.injEq] at h
    obtain ⟨fields, -, step, hstep, kept, -, absorbed, -, coupling, hcoupling, size, hsize, average,
      haverage, rfl⟩ := h
    have hfinite : ∀ x ∈ average, x.isFinite = true := by
      rintro x rfl
      obtain ⟨j, hx⟩ := Json.exists_of_optionalField? haverage
      exact Json.lossless_number.fits j x hx _ List.mem_cons_self
    simpa [figures, Json.le_of_field? hstep, Json.le_of_field? hcoupling, Json.le_of_field? hsize]
      using hfinite

end MergeStep

namespace StopReason

def figures : StopReason → List Figure
  | singleCluster => []
  | noCoupling => []
  | moduleLimit bound => [.count bound]
  | belowThreshold _ _ average minimum => [.number average, .number minimum]
  | stepBudget budget => [.count budget]

/-- The details name themselves, and none of them is the kind. -/
theorem details_names (r : StopReason) :
    (r.details.map Prod.fst).Nodup ∧ ∀ field ∈ r.details, field.1 ≠ "reason" := by
  cases r <;> simp [details]

theorem isWritten_details (r : StopReason) : ∀ field ∈ r.details, field.2.IsWritten := by
  cases r <;> simp [details]

variable {r : StopReason}

theorem ofDetails?_details (hfits : ∀ f ∈ r.figures, f.Fits)
    (hreads : ∀ f ∈ r.figures, f.ReadsBack) : ofDetails? r.kind (.ofFields r.details) = some r := by
  have hrecord (names : List String) (required : Nat) :
      (Json.ofFields r.details).record? names required = some r.details :=
    Json.record?_ofFields r.details_names.1 _ _
  cases r with
  | singleCluster => simp only [ofDetails?, kind, hrecord, Option.map_some]
  | noCoupling => simp only [ofDetails?, kind, hrecord, Option.map_some]
  | moduleLimit bound =>
      have hbound : Json.asCount? (.ofNat bound) = some bound :=
        Json.asCount?_ofNat (hfits _ List.mem_cons_self)
      simp only [ofDetails?, kind, hrecord]
      simp [details, hbound]
  | belowThreshold keep absorb average minimum =>
      have hnumber {x : Binary64}
          (hx : .number x ∈ figures (belowThreshold keep absorb average minimum)) :
          Json.asBinary64? (.ofBinary64 x) = some x :=
        Json.asBinary64?_ofBinary64 (hfits (.number x) hx) (hreads (.number x) hx)
      have haverage := hnumber (x := average) (by simp [figures])
      have hminimum := hnumber (x := minimum) (by simp [figures])
      simp only [ofDetails?, kind, hrecord]
      simp [details, haverage, hminimum]
  | stepBudget budget =>
      have hbudget : Json.asCount? (.ofNat budget) = some budget :=
        Json.asCount?_ofNat (hfits _ List.mem_cons_self)
      simp only [ofDetails?, kind, hrecord]
      simp [details, hbudget]

theorem fits_of_ofDetails? {kind : String} {details : Json} (h : ofDetails? kind details = some r) :
    ∀ f ∈ r.figures, f.Fits := by
  unfold ofDetails? at h
  -- One case for each kind, in the order in which they are tried, and then no kind at all.
  split at h
  · obtain ⟨-, -, rfl⟩ := Option.map_eq_some_iff.1 h
    exact List.forall_mem_nil _
  · obtain ⟨-, -, rfl⟩ := Option.map_eq_some_iff.1 h
    exact List.forall_mem_nil _
  · simp only [Option.bind_eq_bind, Option.bind_eq_some_iff, Option.pure_def,
      Option.some.injEq] at h
    obtain ⟨fields, -, bound, hbound, rfl⟩ := h
    exact Json.lossless_count.fits_of_field? hbound
  · simp only [Option.bind_eq_bind, Option.bind_eq_some_iff, Option.pure_def,
      Option.some.injEq] at h
    obtain ⟨fields, -, keep, -, absorb, -, average, haverage, minimum, hminimum, rfl⟩ := h
    exact List.forall_mem_append.2 ⟨Json.lossless_number.fits_of_field? haverage,
      Json.lossless_number.fits_of_field? hminimum⟩
  · simp only [Option.bind_eq_bind, Option.bind_eq_some_iff, Option.pure_def,
      Option.some.injEq] at h
    obtain ⟨fields, -, budget, hbudget, rfl⟩ := h
    exact Json.lossless_count.fits_of_field? hbudget
  · cases h

/-- What is written of a reason besides its kind has a meaning as a whole. -/
theorem isMeaningful_details (hfits : ∀ f ∈ r.figures, f.Fits)
    (hreads : ∀ f ∈ r.figures, f.ReadsBack) (room : Nat) :
    ∀ field ∈ r.details, field.2.isMeaningful room = true := by
  cases r with
  | singleCluster => exact List.forall_mem_nil _
  | noCoupling => exact List.forall_mem_nil _
  | moduleLimit bound =>
      have hbound : bound ≤ Json.largestWord := hfits _ List.mem_cons_self
      simp [details, Json.isMeaningful_ofNat room hbound]
  | belowThreshold keep absorb average minimum =>
      simp only [figures, List.forall_mem_cons, Figure.fits_number, Figure.readsBack_number]
        at hfits hreads
      obtain ⟨haverage, hminimum, -⟩ := hfits
      obtain ⟨haverage', hminimum', -⟩ := hreads
      simp [details, Json.isMeaningful_ofBinary64 room haverage haverage',
        Json.isMeaningful_ofBinary64 room hminimum hminimum']
  | stepBudget budget =>
      have hbudget : budget ≤ Json.largestWord := hfits _ List.mem_cons_self
      simp [details, Json.isMeaningful_ofNat room hbudget]

theorem lossless {depth : Nat} (hdepth : depth < Json.nestingLimit) :
    Lossless toJson (ofJson? depth) figures where
  isWritten := by
    intro r
    apply Json.isWritten_ofFields
    exact List.forall_mem_cons.2 ⟨Json.isWritten_ofText r.kind, r.isWritten_details⟩
  decode_encode := by
    intro r hfits hreads
    obtain ⟨hnodup, hne⟩ := r.details_names
    let fields := ("reason", Json.ofText r.kind) :: r.details
    let written := fields.map fun field => (Json.escape field.1, field.2)
    let rest := r.details.map fun field => (Json.escape field.1, field.2)
    have hentries : (Json.object written).entries? = some fields := Json.entries?_ofFields fields
    have hkind : Json.field? fields "reason" Json.asText? = some r.kind := by
      rw [Json.field?_cons_self, Json.asText?_ofText]
    have hunique : Json.isUnique fields "reason" = true := by
      apply Json.isUnique_of_nodup
      rw [List.map_cons, List.nodup_cons]
      refine ⟨?_, hnodup⟩
      intro hreason
      obtain ⟨field, hfield, heq⟩ := List.mem_map.1 hreason
      exact hne field hfield heq
    have hrest : written.filter (fun field => Json.text? field.1 ≠ some "reason") = rest := by
      have hkept : ∀ field ∈ rest, decide (Json.text? field.1 ≠ some "reason") = true := by
        simp only [rest, List.forall_mem_map, Json.text?_escape, Ne, Option.some.injEq,
          decide_eq_true_eq]
        exact hne
      simp only [written, fields]
      rw [List.map_cons, List.filter_cons_of_neg (by simp)]
      exact List.filter_eq_self.2 hkept
    have hmeaning : Json.isMeaningful (Json.nestingLimit - depth) (.object rest) = true := by
      have hroom : 0 < Json.nestingLimit - depth := by omega
      have hvalues := isMeaningful_details hfits hreads (Json.nestingLimit - depth - 1)
      simpa [Json.isMeaningful, hroom] using Json.haveMeaningful_map hvalues
    have hdetails : ofDetails? r.kind (.object rest) = some r := ofDetails?_details hfits hreads
    change ofJson? depth (.object written) = some r
    simp only [ofJson?, hentries, Option.bind_eq_bind, Option.bind_some, hkind, hrest, hunique,
      hmeaning, hdetails, and_self, if_true]
  fits := by
    intro j r h
    unfold ofJson? at h
    split at h
    · simp only [Option.bind_eq_bind, Option.bind_eq_some_iff] at h
      obtain ⟨entries, -, kind, -, h⟩ := h
      split at h
      · exact fits_of_ofDetails? h
      · cases h
    · simp only [Option.bind_eq_bind, Option.bind_eq_some_iff] at h
      obtain ⟨kind, -, h⟩ := h
      split at h
      · exact fits_of_ofDetails? h
      · cases h
    · cases h

end StopReason

namespace Outcome

def figures (o : Outcome) : List Figure := o.steps.flatMap MergeStep.figures ++ o.stop.figures

theorem lossless {depth : Nat} (hdepth : depth + 1 < Json.nestingLimit) :
    Lossless toJson (ofJson? depth) figures where
  isWritten := by
    intro o
    apply Json.isWritten_ofFields
    simp [MergeStep.lossless.list.isWritten, (StopReason.lossless hdepth).isWritten]
  decode_encode := by
    intro o hfits hreads
    rw [figures, List.forall_mem_append] at hfits hreads
    have hsteps := MergeStep.lossless.list.decode_encode o.steps hfits.1 hreads.1
    have hstop := (StopReason.lossless hdepth).decode_encode o.stop hfits.2 hreads.2
    have hrecord : o.toJson.record? ["steps", "stop"] 2 = some _ :=
      Json.record?_ofFields (by simp) _ _
    simp [ofJson?, hrecord, hsteps, hstop]
  fits := by
    intro j o h
    simp only [ofJson?, Option.bind_eq_bind, Option.bind_eq_some_iff, Option.pure_def,
      Option.some.injEq] at h
    obtain ⟨fields, -, steps, hsteps, stop, hstop, rfl⟩ := h
    exact List.forall_mem_append.2 ⟨MergeStep.lossless.list.fits_of_field? hsteps,
      (StopReason.lossless hdepth).fits_of_field? hstop⟩

end Outcome

namespace CallGraphStats

def figures (s : CallGraphStats) : List Figure :=
  [.count s.methods, .count s.edges, .count s.resolvedEdges, .count s.crossClassEdges,
    .count s.unresolvedEdges, .count s.classes]

theorem lossless : Lossless toJson ofJson? figures where
  isWritten := by
    intro s
    apply Json.isWritten_ofFields
    simp
  decode_encode := by
    intro s hfits _
    simp only [figures, List.forall_mem_cons, Figure.fits_count] at hfits
    obtain ⟨hmethods, hedges, hresolved, hcross, hunresolved, hclasses, -⟩ := hfits
    have hrecord : s.toJson.record? ["methods", "edges", "resolved_edges", "cross_class_edges",
        "unresolved_edges", "classes"] 6 = some _ :=
      Json.record?_ofFields (by simp) _ _
    simp [ofJson?, hrecord, hmethods, hedges, hresolved, hcross, hunresolved, hclasses]
  fits := by
    intro j s h
    simp only [ofJson?, Option.bind_eq_bind, Option.bind_eq_some_iff, Option.pure_def,
      Option.some.injEq] at h
    obtain ⟨fields, -, methods, hmethods, edges, hedges, resolved, hresolved, cross, hcross,
      unresolved, hunresolved, classes, hclasses, rfl⟩ := h
    simp [figures, Json.le_of_field? hmethods, Json.le_of_field? hedges,
      Json.le_of_field? hresolved, Json.le_of_field? hcross, Json.le_of_field? hunresolved,
      Json.le_of_field? hclasses]

end CallGraphStats

namespace CouplingEdge

def figures (e : CouplingEdge) : List Figure := [.count e.weight]

theorem lossless : Lossless toJson ofJson? figures where
  isWritten := by
    intro e
    apply Json.isWritten_ofFields
    simp
  decode_encode := by
    intro e hfits _
    have hweight : Json.asCount? (.ofNat e.weight) = some e.weight :=
      Json.asCount?_ofNat (hfits _ List.mem_cons_self)
    have hrecord : e.toJson.record? ["from", "to", "weight"] 3 = some _ :=
      Json.record?_ofFields (by simp) _ _
    simp [ofJson?, hrecord, hweight]
  fits := by
    intro j e h
    simp only [ofJson?, Option.bind_eq_bind, Option.bind_eq_some_iff, Option.pure_def,
      Option.some.injEq] at h
    obtain ⟨fields, -, source, -, target, -, weight, hweight, rfl⟩ := h
    simpa [figures] using Json.le_of_field? hweight

end CouplingEdge

namespace ModuleCoupling

def figures (m : ModuleCoupling) : List Figure := [.count m.size, .number m.average]

theorem lossless : Lossless toJson ofJson? figures where
  isWritten := by
    intro m
    apply Json.isWritten_ofFields
    simp
  decode_encode := by
    intro m hfits hreads
    simp only [figures, List.forall_mem_cons, Figure.fits_count, Figure.fits_number,
      Figure.readsBack_number] at hfits hreads
    obtain ⟨hsize, hfinite, -⟩ := hfits
    obtain ⟨-, haverage, -⟩ := hreads
    have hrecord : m.toJson.record? ["key", "size", "average"] 3 = some _ :=
      Json.record?_ofFields (by simp) _ _
    simp [ofJson?, hrecord, hsize, Json.asBinary64?_ofBinary64 hfinite haverage]
  fits := by
    intro j m h
    simp only [ofJson?, Option.bind_eq_bind, Option.bind_eq_some_iff, Option.pure_def,
      Option.some.injEq] at h
    obtain ⟨fields, -, key, -, size, hsize, average, haverage, rfl⟩ := h
    simp [figures, Json.le_of_field? hsize, Json.isFinite_of_field? haverage]

end ModuleCoupling

namespace PartitionReport

def figures (r : PartitionReport) : List Figure := r.outcome.figures

theorem lossless {depth : Nat} (hdepth : depth + 2 < Json.nestingLimit) :
    Lossless toJson (ofJson? depth) figures where
  isWritten := by
    intro r
    apply Json.isWritten_ofFields
    simp [(Outcome.lossless hdepth).isWritten, Json.lossless_names.list.isWritten]
  decode_encode := by
    intro r hfits hreads
    have houtcome := (Outcome.lossless hdepth).decode_encode r.outcome hfits hreads
    have hclusters := Json.lossless_names.list.decode_encode r.clusters (by simp) (by simp)
    have hrecord : r.toJson.record? ["outcome", "clusters"] 2 = some _ :=
      Json.record?_ofFields (by simp) _ _
    simp [ofJson?, hrecord, houtcome, hclusters]
  fits := by
    intro j r h
    simp only [ofJson?, Option.bind_eq_bind, Option.bind_eq_some_iff, Option.pure_def,
      Option.some.injEq] at h
    obtain ⟨fields, -, outcome, houtcome, clusters, -, rfl⟩ := h
    exact (Outcome.lossless hdepth).fits_of_field? houtcome

end PartitionReport

namespace ModuleReport

def figures (r : ModuleReport) : List Figure :=
  [.count r.maxModules, .number r.minCouplingAverage] ++ r.outcome.figures ++
    r.modules.flatMap ModuleCoupling.figures

theorem lossless {depth : Nat} (hdepth : depth + 2 < Json.nestingLimit) :
    Lossless toJson (ofJson? depth) figures where
  isWritten := by
    intro r
    apply Json.isWritten_ofFields
    simp [(Outcome.lossless hdepth).isWritten, ModuleCoupling.lossless.list.isWritten,
      Json.lossless_names.list.isWritten]
  decode_encode := by
    intro r hfits hreads
    simp only [figures, List.forall_mem_append, List.forall_mem_cons, Figure.fits_count,
      Figure.fits_number, Figure.readsBack_number] at hfits hreads
    obtain ⟨⟨⟨hmaximum, hfinite, -⟩, houtcome⟩, hmodules⟩ := hfits
    obtain ⟨⟨⟨-, hminimum, -⟩, houtcome'⟩, hmodules'⟩ := hreads
    have houtcome := (Outcome.lossless hdepth).decode_encode r.outcome houtcome houtcome'
    have hmodules := ModuleCoupling.lossless.list.decode_encode r.modules hmodules hmodules'
    have hclusters := Json.lossless_names.list.decode_encode r.clusters (by simp) (by simp)
    have hrecord : r.toJson.record? ["max_modules", "min_coupling_average", "outcome", "modules",
        "clusters"] 5 = some _ :=
      Json.record?_ofFields (by simp) _ _
    simp [ofJson?, hrecord, hmaximum, Json.asBinary64?_ofBinary64 hfinite hminimum, houtcome,
      hmodules, hclusters]
  fits := by
    intro j r h
    simp only [ofJson?, Option.bind_eq_bind, Option.bind_eq_some_iff, Option.pure_def,
      Option.some.injEq] at h
    obtain ⟨fields, -, maximum, hmaximum, minimum, hminimum, outcome, houtcome, modules, hmodules,
      clusters, -, rfl⟩ := h
    have hbounds : ∀ f ∈ [Figure.count maximum, .number minimum], f.Fits := by
      simp [Json.le_of_field? hmaximum, Json.isFinite_of_field? hminimum]
    have houtcome := (Outcome.lossless hdepth).fits_of_field? houtcome
    have hmodules := ModuleCoupling.lossless.list.fits_of_field? hmodules
    exact List.forall_mem_append.2 ⟨List.forall_mem_append.2 ⟨hbounds, houtcome⟩, hmodules⟩

end ModuleReport

namespace AnalysisReport

def figures (r : AnalysisReport) : List Figure :=
  r.stats.figures ++ r.coupling.flatMap CouplingEdge.figures ++ r.hierarchical.figures ++
    r.modules.figures

theorem lossless : Lossless toJson ofJson? figures := by
  have hpartition : Lossless PartitionReport.toJson (PartitionReport.ofJson? 1) _ :=
    PartitionReport.lossless (by decide)
  have hmodules : Lossless ModuleReport.toJson (ModuleReport.ofJson? 1) _ :=
    ModuleReport.lossless (by decide)
  refine ⟨?_, ?_, ?_⟩
  · intro r
    apply Json.isWritten_ofFields
    simp [CallGraphStats.lossless.isWritten, CouplingEdge.lossless.list.isWritten,
      hpartition.isWritten, hmodules.isWritten]
  · intro r hfits hreads
    simp only [figures, List.forall_mem_append] at hfits hreads
    obtain ⟨⟨⟨hstats, hcoupling⟩, hhierarchical⟩, hmodule⟩ := hfits
    obtain ⟨⟨⟨hstats', hcoupling'⟩, hhierarchical'⟩, hmodule'⟩ := hreads
    have hstats := CallGraphStats.lossless.decode_encode r.stats hstats hstats'
    have hcoupling := CouplingEdge.lossless.list.decode_encode r.coupling hcoupling hcoupling'
    have hhierarchical := hpartition.decode_encode r.hierarchical hhierarchical hhierarchical'
    have hmodules := hmodules.decode_encode r.modules hmodule hmodule'
    have hrecord : r.toJson.record? ["stats", "classes", "coupling", "hierarchical",
        "modules"] 5 = some _ :=
      Json.record?_ofFields (by simp) _ _
    simp [ofJson?, hrecord, hstats, hcoupling, hhierarchical, hmodules]
  · intro j r h
    simp only [ofJson?, Option.bind_eq_bind, Option.bind_eq_some_iff, Option.pure_def,
      Option.some.injEq] at h
    obtain ⟨fields, -, stats, hstats, classes, -, coupling, hcoupling, hierarchical, hhierarchical,
      modules, hmodule, rfl⟩ := h
    simp only [figures, List.forall_mem_append]
    exact ⟨⟨⟨CallGraphStats.lossless.fits_of_field? hstats,
      CouplingEdge.lossless.list.fits_of_field? hcoupling⟩,
      hpartition.fits_of_field? hhierarchical⟩, hmodules.fits_of_field? hmodule⟩

end AnalysisReport

/-- Reads an outcome from a text. -/
def Outcome.ofText? (text : String) : Option Outcome := (Json.read? text).bind (ofJson? 0)

/-- Reads a report from a text. -/
def AnalysisReport.ofText? (text : String) : Option AnalysisReport := (Json.read? text).bind ofJson?

/-- Outcomes and reports of any names, counts of 64 bits and finite numbers read back from their
text, whatever blanks stand between the tokens. A text that is accepted as one of them, in whatever
form it gives the value, comes to rest at once: the value is written, read and written again with
the same text. Of the numbers in a value it is asked that they read back from their digits. -/
theorem outcome_and_report_read_back {s : Json.Spacing} (hs : s.IsBlank) :
    ((∀ o : Outcome, (∀ f ∈ o.figures, f.Fits) → (∀ f ∈ o.figures, f.ReadsBack) →
        Outcome.ofText? (Json.write s o.toJson) = some o) ∧
      ∀ r : AnalysisReport, (∀ f ∈ r.figures, f.Fits) → (∀ f ∈ r.figures, f.ReadsBack) →
        AnalysisReport.ofText? (Json.write s r.toJson) = some r) ∧
    ((∀ text o, Outcome.ofText? text = some o → (∀ f ∈ o.figures, f.ReadsBack) →
        (Outcome.ofText? (Json.write s o.toJson)).map (fun again => Json.write s again.toJson) =
          some (Json.write s o.toJson)) ∧
      ∀ text r, AnalysisReport.ofText? text = some r → (∀ f ∈ r.figures, f.ReadsBack) →
        (AnalysisReport.ofText? (Json.write s r.toJson)).map
            (fun again => Json.write s again.toJson) = some (Json.write s r.toJson)) := by
  have houtcome : Lossless Outcome.toJson (Outcome.ofJson? 0) _ := Outcome.lossless (by decide)
  have hreport := AnalysisReport.lossless
  refine ⟨⟨?_, ?_⟩, ?_, ?_⟩
  · intro o hfits hreads
    exact houtcome.read?_write hs hfits hreads
  · intro r hfits hreads
    exact hreport.read?_write hs hfits hreads
  · intro text o hread hreads
    obtain ⟨j, -, hdecode⟩ := Option.bind_eq_some_iff.1 hread
    have hagain := houtcome.read?_write hs (houtcome.fits j o hdecode) hreads
    rw [Outcome.ofText?, hagain, Option.map_some]
  · intro text r hread hreads
    obtain ⟨j, -, hdecode⟩ := Option.bind_eq_some_iff.1 hread
    have hagain := hreport.read?_write hs (hreport.fits j r hdecode) hreads
    rw [AnalysisReport.ofText?, hagain, Option.map_some]

/-- A merge with an average and one without, stopped below a minimum, and a report of them; an
outcome given in another order with a field that is passed over; and a report given as lists. -/
theorem outcome_and_report_read_back_belowThreshold :
    let o : Outcome := {
      steps := [⟨1, "A", "\"\\\x01", 3, 2, some (.quotient 3 2)⟩,
        ⟨2, "", "日本", Json.largestWord, 3, none⟩]
      stop := .belowThreshold "A" "B" (.quotient 1 2) (.quotient 2 3) }
    let r : AnalysisReport := {
      stats := ⟨4, 3, 2, 1, 1, 3⟩
      classes := ["", "A", "B"]
      coupling := [⟨"A", "B", 1⟩]
      hierarchical := ⟨o, [.ofList ["B", "A", "B"], .empty]⟩
      modules := ⟨1, .quotient 2 3, o, [⟨"A", 2, .quotient 1 2⟩], [.ofList ["A"]]⟩ }
    let text := "\x7b\"note\": null, \"stop\": [\"step_budget\", 5], \"steps\": []\x7d"
    let stopped : Outcome := ⟨[], .stepBudget 5⟩
    let listed :=
      "[[0,0,0,0,0,0],[],[],[[[],[\"no_coupling\"]],[]],[0,1e0,[[],[\"no_coupling\"]],[],[]]]"
    let idle : AnalysisReport := {
      stats := ⟨0, 0, 0, 0, 0, 0⟩
      classes := []
      coupling := []
      hierarchical := ⟨⟨[], .noCoupling⟩, []⟩
      modules := ⟨0, .ofNat 1, ⟨[], .noCoupling⟩, [], []⟩ }
    Outcome.ofText? (Json.write .compact o.toJson) = some o ∧
      AnalysisReport.ofText? (Json.write .indented r.toJson) = some r ∧
      Outcome.ofText? text = some stopped ∧
      (Outcome.ofText? (Json.write .compact stopped.toJson)).map
          (fun again => Json.write .compact again.toJson) =
        some (Json.write .compact stopped.toJson) ∧
      AnalysisReport.ofText? listed = some idle ∧
      (AnalysisReport.ofText? (Json.write .indented idle.toJson)).map
          (fun again => Json.write .indented again.toJson) =
        some (Json.write .indented idle.toJson) := by
  intro o r text stopped listed idle
  obtain ⟨⟨hreadOutcome, -⟩, hrewriteOutcome, -⟩ :=
    outcome_and_report_read_back Json.Spacing.isBlank_compact
  obtain ⟨⟨-, hreadReport⟩, -, hrewriteReport⟩ :=
    outcome_and_report_read_back Json.Spacing.isBlank_indented
  have htext : Outcome.ofText? text = some stopped := by decide +kernel
  have hlisted : AnalysisReport.ofText? listed = some idle := by decide +kernel
  exact ⟨hreadOutcome o (by decide +kernel) (by decide +kernel),
    hreadReport r (by decide +kernel) (by decide +kernel),
    htext, hrewriteOutcome text stopped htext (by decide +kernel),
    hlisted, hrewriteReport listed idle hlisted (by decide +kernel)⟩

end ModuleRecovery
