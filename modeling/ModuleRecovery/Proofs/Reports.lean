import ModuleRecovery.CallGraph.Samples
import ModuleRecovery.Proofs.Attempts
import ModuleRecovery.Proofs.CallCounts
import ModuleRecovery.Proofs.InnerWeights

/-!
How the parts of a report fit together. The counts, the listed classes, the listed edges and the
clusters of both runs come about independently of each other, and yet each can be checked against
the others from the report alone. Main statement: with valid settings every report is consistent in
this way.
-/

namespace ModuleRecovery

/-! ## What a report says -/

/-- The weight listed from one class to another, zero where none is. -/
def listedWeight (edges : List CouplingEdge) (a b : ClassName) : Nat :=
  ((edges.find? fun edge => edge.source = a ∧ edge.target = b).map (·.weight)).getD 0

/-- The mean of the weights listed from each member to each other one; zero where there is one
member only. -/
def listedMean (edges : List CouplingEdge) (members : NameSet) : Binary64 :=
  let names := members.toList.toFinset
  if members.size ≤ 1 then .zero
  else .quotient (∑ x ∈ names, ∑ y ∈ names with x ≠ y, listedWeight edges x y)
    (members.size * (members.size - 1))

/-- Each of the classes, and nothing else, is in exactly one of the clusters. -/
structure Divides (clusters : List NameSet) (classes : List ClassName) : Prop where
  mem_iff : ∀ x, x ∈ classes ↔ ∃ cluster ∈ clusters, x ∈ cluster
  disjoint : clusters.Pairwise fun s t => ∀ x ∈ s, x ∉ t

/-- The entry tells of this cluster what the listed edges say. -/
structure ModuleCoupling.Describes (entry : ModuleCoupling) (edges : List CouplingEdge)
    (cluster : NameSet) : Prop where
  size_eq : entry.size = cluster.size
  key_mem : entry.key ∈ cluster
  average_eq : entry.average = listedMean edges cluster

/-- Each part of the report agrees with the others, where the settings give this number of classes
or none. -/
structure AnalysisReport.IsConsistent (r : AnalysisReport) (totalClasses : Option Nat) : Prop where
  edges_eq : r.stats.edges = r.stats.resolvedEdges + r.stats.unresolvedEdges
  crossClassEdges_eq : (r.coupling.map (·.weight)).sum = r.stats.crossClassEdges
  crossClassEdges_le : r.stats.crossClassEdges ≤ r.stats.resolvedEdges
  classes_sorted : r.classes.Pairwise (· < ·)
  classes_length : r.classes.length = r.stats.classes
  coupling_sorted : r.coupling.Pairwise fun e f =>
    e.source < f.source ∨ e.source = f.source ∧ e.target < f.target
  coupling_mem : ∀ edge ∈ r.coupling, edge.source ∈ r.classes ∧ edge.target ∈ r.classes
  hierarchical_divides : Divides r.hierarchical.clusters r.classes
  modules_divide : Divides r.modules.clusters r.classes
  hierarchical_count :
    r.hierarchical.outcome.steps.length + r.hierarchical.clusters.length = r.classes.length
  modules_count : r.modules.outcome.steps.length + r.modules.clusters.length = r.classes.length
  modules_describe :
    List.Forall₂ (fun entry cluster => entry.Describes r.coupling cluster) r.modules.modules
      r.modules.clusters
  maxModules_eq : r.modules.maxModules = totalClasses.getD r.classes.length / 2

/-! ## Counts and edges -/

/-- Every call is resolved or not. -/
theorem CallGraph.length_edges (g : CallGraph) :
    g.edges.length = g.resolvedCalls.length + g.unresolvedEdges.length := by
  rw [resolvedCalls, unresolvedEdges, List.length_filterMap_eq_countP,
    ← List.countP_eq_length_filter,
    List.length_eq_countP_add_countP fun edge => (g.resolve edge).isSome]
  congr 1
  apply List.countP_congr
  simp

namespace CouplingGraph

variable {g : CouplingGraph}

theorem listedWeight_edges (g : CouplingGraph) (a b : ClassName) :
    listedWeight g.edges a b = g.weight a b := by
  unfold listedWeight
  cases hfind : g.edges.find? fun edge => edge.source = a ∧ edge.target = b with
  | none =>
      by_contra hne
      have hedge : ⟨a, b, g.weight a b⟩ ∈ g.edges :=
        mem_edges_iff.2 ⟨rfl, Nat.pos_of_ne_zero (Ne.symm hne)⟩
      simpa using List.find?_eq_none.1 hfind _ hedge
  | some edge =>
      have hedge := mem_edges_iff.1 (List.mem_of_find?_eq_some hfind)
      have hends : edge.source = a ∧ edge.target = b := by simpa using List.find?_some hfind
      obtain ⟨rfl, rfl⟩ := hends
      exact hedge.1.symm

theorem averageCoupling_eq_listedMean (g : CouplingGraph) (members : NameSet) :
    g.averageCoupling members.toList = listedMean g.edges members := by
  simp only [g.averageCoupling_eq members.nodup, listedMean, listedWeight_edges]
  rfl

end CouplingGraph

/-! ## Clusters -/

namespace Clusters

variable {c : Clusters} {g : CouplingGraph}

theorem mem_partition_iff {members : NameSet} :
    members ∈ c.partition ↔ ∃ key, c.members? key = some members := by
  simp only [partition, Table.values, List.mem_map, Prod.exists, members?, Table.get?_eq_some_iff,
    exists_eq_right]

theorem IsPartition.divides (h : c.IsPartition g.classSet) : Divides c.partition g.classes where
  mem_iff := by
    intro x
    refine (h.mem_iff x).trans ?_
    simp only [mem_partition_iff]
    constructor
    · rintro ⟨key, hx⟩
      obtain ⟨members, hmembers⟩ := mem_keys_iff.1 (mem_keys_of_mem hx)
      have hlist : x ∈ members.toList := membersOf_eq hmembers ▸ hx
      exact ⟨members, ⟨key, hmembers⟩, hlist⟩
    · rintro ⟨members, ⟨key, hmembers⟩, hx⟩
      have hlist : x ∈ c.membersOf key := membersOf_eq hmembers ▸ hx
      exact ⟨key, hlist⟩
  disjoint := by
    rw [partition, Table.values, List.pairwise_map]
    apply c.table.sorted.imp_of_mem
    rintro ⟨a, s⟩ ⟨b, t⟩ ha hb hlt x hs ht
    have hmem {key : ClassName} {members : NameSet} (hentry : (key, members) ∈ c.table.entries)
        (hx : x ∈ members) : x ∈ c.memberSet key := by
      have hlist : x ∈ c.membersOf key := membersOf_eq (Table.get?_eq_some_iff.2 hentry) ▸ hx
      exact hlist
    have heq : a = b := h.unique (hmem ha hs) (hmem hb ht)
    exact absurd (heq ▸ hlt) (String.lt_irrefl b)

/-- The listed averages stand beside the clusters that they are about. -/
theorem IsCohesive.averages_describe (h : c.IsCohesive g) :
    List.Forall₂ (fun entry cluster => entry.Describes g.edges cluster) (c.averages g)
      c.partition := by
  rw [averages, keys, Table.keys, List.map_map, partition, Table.values, List.forall₂_map_left_iff,
    List.forall₂_map_right_iff, List.forall₂_same]
  rintro ⟨key, members⟩ hentry
  have hmembers : c.membersOf key = members.toList :=
    membersOf_eq (Table.get?_eq_some_iff.2 hentry)
  have hkey : key ∈ c.membersOf key := (h.least key (List.mem_map.2 ⟨_, hentry, rfl⟩)).1
  rw [hmembers] at hkey
  exact
    { size_eq := congrArg List.length hmembers
      key_mem := hkey
      average_eq := (congrArg g.averageCoupling hmembers).trans
        (g.averageCoupling_eq_listedMean members) }

end Clusters

/-- What every run from one cluster for each class has to show at its end. -/
theorem Rule.run_divides (rule : Rule) (g : CouplingGraph) (budget : Option Nat) :
    let r := rule.run g budget (.singletons g)
    Divides r.final.partition g.classes ∧
      r.outcome.steps.length + r.final.partition.length = g.classes.length := by
  intro r
  have path : rule.Path g 0 (.singletons g) r.merges r.final := rule.path_run g budget _
  have hcount := rule.mergeCount_add_size g budget (.singletons g)
  rw [Clusters.size_singletons] at hcount
  refine ⟨path.cohesive.1.divides, ?_⟩
  simpa [Outcome.mergeCount, Clusters.partition, Clusters.size, Table.values, Table.size,
    CouplingGraph.classes, CouplingGraph.classCount, Table.keys] using hcount

/-- Whatever the call graph, an analysis with valid settings returns, and its report is consistent:
the calls are the resolved and the unresolved ones; the weights listed are the calls between
classes; both runs divide the listed classes, with a cluster less for each step; and the modules are
listed with their sizes, with a member of each as its key and with the means of the weights
listed. -/
theorem reports_consistent (g : CallGraph) (settings : Settings) (hvalid : ¬settings.IsInvalid) :
    ∃ analysis, g.analyze settings = .ok analysis ∧ analysis.report.stats = g.stats ∧
      analysis.report.IsConsistent settings.totalClasses := by
  have hok : settings.validate = .ok () := Settings.validate_eq_ok_iff.2 hvalid
  have hclasses : g.couplingGraph.classCount = g.couplingGraph.classes.length := by
    simp [CouplingGraph.classCount, CouplingGraph.classes, Table.size, Table.keys]
  have hclustering := Rule.hierarchical.run_divides g.couplingGraph settings.stepBudget
  let rule := g.couplingGraph.moduleRule settings
  have hidentification := rule.run_divides g.couplingGraph settings.stepBudget
  have path := rule.path_run g.couplingGraph settings.stepBudget (.singletons g.couplingGraph)
  refine ⟨_, g.analyze_of_ok hok, rfl, ?_⟩
  exact
    { edges_eq := g.length_edges
      crossClassEdges_eq := g.totalWeight_couplingGraph
      crossClassEdges_le := List.length_filter_le _ _
      classes_sorted := g.couplingGraph.rows.keys_sorted
      classes_length := congrArg List.length g.classes_couplingGraph
      coupling_sorted := g.couplingGraph.edges_sorted
      coupling_mem := fun edge => g.isClean_couplingGraph.mem_classes_of_mem_edges
      hierarchical_divides := hclustering.1
      modules_divide := hidentification.1
      hierarchical_count := hclustering.2
      modules_count := hidentification.2
      modules_describe := path.cohesive.2.averages_describe
      maxModules_eq := congrArg (fun n => settings.totalClasses.getD n / 2) hclasses }

theorem reports_consistent_layeredShop :
    let shop := CallGraph.Samples.layeredShop
    let settings := { Settings.standard with totalClasses := some 5, stepBudget := some 2 }
    ¬settings.IsInvalid ∧
      ∃ analysis, shop.analyze settings = .ok analysis ∧
        analysis.report.stats = ⟨10, 21, 20, 20, 1, 7⟩ ∧
        analysis.report.IsConsistent (some 5) := by
  intro shop settings
  have hvalid : ¬settings.IsInvalid := Settings.validate_eq_ok_iff.1 (by decide +kernel)
  have hstats : shop.stats = ⟨10, 21, 20, 20, 1, 7⟩ := by decide +kernel
  obtain ⟨analysis, hanalyze, hsame, hconsistent⟩ := reports_consistent shop settings hvalid
  exact ⟨hvalid, analysis, hanalyze, hsame.trans hstats, hconsistent⟩

end ModuleRecovery
