import ModuleRecovery.CallGraph.Samples
import ModuleRecovery.Proofs.CallCounts
import ModuleRecovery.Proofs.IsolatedClasses

/-!
Calls with an end that has no owner. No metric counts them, so all that they leave behind are
classes that are named by nothing else, and these are isolated. Main statement: leaving such calls
out changes no share, no listed edge, no count of the calls that are resolved and no step of
hierarchical clustering; it takes some isolated classes away, and their clusters with them.
-/

namespace ModuleRecovery

namespace CallGraph

variable {g : CallGraph} {method : MethodName} {name : ClassName}

/-- The calls that have an owner at both ends. Every caller stays, also one that is left without
calls. -/
def withoutUnresolved (g : CallGraph) : CallGraph where
  calls := ⟨g.calls.entries.map fun (caller, callees) =>
      (caller, callees.filter fun callee => (g.classOf caller).isSome ∧ (g.classOf callee).isSome),
    by simpa [List.pairwise_map] using g.calls.sorted⟩
  owners := g.owners

/-! ## Resolved calls -/

theorem edges_withoutUnresolved (g : CallGraph) :
    g.withoutUnresolved.edges = g.edges.filter fun edge =>
      (g.classOf edge.1).isSome ∧ (g.classOf edge.2).isSome := by
  simp only [edges, withoutUnresolved, List.flatMap_map, List.filter_flatMap, List.filter_map]
  rfl

theorem resolvedCalls_withoutUnresolved (g : CallGraph) :
    g.withoutUnresolved.resolvedCalls = g.resolvedCalls := by
  rw [resolvedCalls, edges_withoutUnresolved, List.filterMap_filter, resolvedCalls]
  apply List.filterMap_congr
  intro edge _
  have hsame : g.withoutUnresolved.resolve edge = g.resolve edge := rfl
  rw [hsame]
  cases hcaller : g.classOf edge.1 with
  | none => simp [resolve, hcaller]
  | some owner => cases hcallee : g.classOf edge.2 <;> simp [resolve, hcaller, hcallee]

theorem crossClassCalls_withoutUnresolved (g : CallGraph) :
    g.withoutUnresolved.crossClassCalls = g.crossClassCalls := by
  rw [crossClassCalls, resolvedCalls_withoutUnresolved, crossClassCalls]

theorem callsBetween_withoutUnresolved (g : CallGraph) (a b : ClassName) :
    g.withoutUnresolved.callsBetween a b = g.callsBetween a b := by
  rw [callsBetween, resolvedCalls_withoutUnresolved, callsBetween]

theorem pairwiseCoupling_withoutUnresolved (g : CallGraph) (a b : ClassName) :
    g.withoutUnresolved.pairwiseCoupling a b = g.pairwiseCoupling a b := by
  simp only [pairwiseCoupling, crossClassCalls_withoutUnresolved, callsBetween_withoutUnresolved]

theorem weight_withoutUnresolved (g : CallGraph) (a b : ClassName) :
    g.withoutUnresolved.couplingGraph.weight a b = g.couplingGraph.weight a b := by
  by_cases hne : a = b
  · rw [hne, g.withoutUnresolved.isClean_couplingGraph.weight_self,
      g.isClean_couplingGraph.weight_self]
  · rw [weight_couplingGraph _ hne, weight_couplingGraph _ hne, callsBetween_withoutUnresolved]

/-! ## Classes -/

theorem mem_methods_of_withoutUnresolved (h : method ∈ g.withoutUnresolved.methods) :
    method ∈ g.methods := by
  simp only [methods, withoutUnresolved, List.flatMap_map, List.mem_flatMap, List.mem_cons,
    List.mem_filter] at h ⊢
  obtain ⟨entry, hentry, rfl | ⟨hcallee, -⟩⟩ := h
  · exact ⟨entry, hentry, Or.inl rfl⟩
  · exact ⟨entry, hentry, Or.inr hcallee⟩

theorem mem_classes_of_withoutUnresolved (h : name ∈ g.withoutUnresolved.couplingGraph.classes) :
    name ∈ g.couplingGraph.classes := by
  rw [mem_classes_couplingGraph, mem_classes_iff] at h ⊢
  obtain ⟨method, hmethod, howner⟩ := h
  exact ⟨method, mem_methods_of_withoutUnresolved hmethod, howner⟩

/-- The classes that are lacking without the unresolved calls. -/
def unresolvedClasses (g : CallGraph) : List ClassName :=
  g.couplingGraph.classes.filter fun name => name ∉ g.withoutUnresolved.couplingGraph.classes

theorem mem_unresolvedClasses_iff :
    name ∈ g.unresolvedClasses ↔
      name ∈ g.couplingGraph.classes ∧ name ∉ g.withoutUnresolved.couplingGraph.classes := by
  simp [unresolvedClasses]

theorem addsIsolated_unresolvedClasses (g : CallGraph) :
    g.couplingGraph.AddsIsolated g.withoutUnresolved.couplingGraph g.unresolvedClasses where
  mem_classes_iff := by
    intro x
    rw [mem_unresolvedClasses_iff]
    constructor
    · intro hx
      by_cases hx' : x ∈ g.withoutUnresolved.couplingGraph.classes
      · exact Or.inr hx'
      · exact Or.inl ⟨hx, hx'⟩
    · rintro (⟨hx, -⟩ | hx')
      · exact hx
      · exact mem_classes_of_withoutUnresolved hx'
  not_mem_classes := fun x hx => (mem_unresolvedClasses_iff.1 hx).2
  weight_eq := fun x y => (g.weight_withoutUnresolved x y).symm
  mutualWeight_eq_zero := by
    intro x hx y
    -- Any weight would make the class known without the unresolved calls, too.
    have hlacking := (mem_unresolvedClasses_iff.1 hx).2
    have hclean := g.withoutUnresolved.isClean_couplingGraph
    rw [CouplingGraph.mutualWeight, ← g.weight_withoutUnresolved, ← g.weight_withoutUnresolved,
      Nat.add_eq_zero_iff]
    constructor
    · by_contra hne
      exact hlacking (hclean.mem_classes_of_weight hne).1
    · by_contra hne
      exact hlacking (hclean.mem_classes_of_weight hne).2

theorem edges_couplingGraph_withoutUnresolved (g : CallGraph) :
    g.withoutUnresolved.couplingGraph.edges = g.couplingGraph.edges :=
  CouplingGraph.edges_eq_of_weight g.weight_withoutUnresolved

theorem mem_isolatedClasses_of_mem_unresolvedClasses (h : name ∈ g.unresolvedClasses) :
    name ∈ g.couplingGraph.isolatedClasses := by
  obtain ⟨hclass, hlacking⟩ := mem_unresolvedClasses_iff.1 h
  have hends : ∀ edge ∈ g.couplingGraph.edges, edge.source ≠ name ∧ edge.target ≠ name := by
    intro edge hedge
    rw [← edges_couplingGraph_withoutUnresolved] at hedge
    have hmem := g.withoutUnresolved.isClean_couplingGraph.mem_classes_of_mem_edges hedge
    constructor
    · rintro rfl
      exact hlacking hmem.1
    · rintro rfl
      exact hlacking hmem.2
  exact CouplingGraph.mem_isolatedClasses_iff.2 ⟨hclass, hends⟩

/-- Unresolved calls show in no metric. Without them every pair of names has the same share, the
coupling graph lists the same edges, and there are as many callers, resolved calls and calls between
classes. The classes are among those there were, and the ones that are lacking were isolated. One
after the other, hierarchical runs with any budgets make the same steps, and each ends in the
clusters of the run without unresolved calls together with one for each class that is lacking
there. -/
theorem unresolved_calls_show_in_no_metric (g : CallGraph) :
    let resolved := g.withoutUnresolved
    let w := g.couplingGraph
    let v := resolved.couplingGraph
    let lacking := g.unresolvedClasses
    (∀ a b, g.pairwiseCoupling a b = resolved.pairwiseCoupling a b) ∧
    w.edges = v.edges ∧
    (g.stats.methods = resolved.stats.methods ∧
      g.stats.resolvedEdges = resolved.stats.resolvedEdges ∧
      g.stats.crossClassEdges = resolved.stats.crossClassEdges) ∧
    (∀ name ∈ v.classes, name ∈ w.classes) ∧
    (∀ name ∈ lacking, name ∈ w.isolatedClasses) ∧
    ∀ budgets : List (Option Nat),
      List.Forall₂ (fun r r' => r.outcome.steps = r'.outcome.steps ∧
          r.final.partition.Perm (r'.final.partition ++ lacking.map .singleton))
        (Rule.hierarchical.runAll w budgets (.singletons w))
        (Rule.hierarchical.runAll v budgets (.singletons v)) := by
  intro resolved w v lacking
  refine ⟨fun a b => (g.pairwiseCoupling_withoutUnresolved a b).symm,
    g.edges_couplingGraph_withoutUnresolved.symm, ⟨?_, ?_, ?_⟩,
    fun name => mem_classes_of_withoutUnresolved,
    fun name => mem_isolatedClasses_of_mem_unresolvedClasses, ?_⟩
  · simp [stats, resolved, withoutUnresolved, Table.size]
  · exact congrArg List.length g.resolvedCalls_withoutUnresolved.symm
  · exact congrArg List.length g.crossClassCalls_withoutUnresolved.symm
  · intro budgets
    have hadds : w.AddsIsolated v lacking := g.addsIsolated_unresolvedClasses
    have hnodup : lacking.Nodup := w.rows.keys_nodup.filter _
    have hstart := Clusters.addsSingletons_singletons hadds
    apply (Rule.runAll_of_addsSingletons hadds budgets hstart).imp
    rintro r r' ⟨hsteps, hfinal⟩
    exact ⟨hsteps, hfinal.partition_perm hnodup⟩

/-- A method that only an unowned one calls brings a class of its own. -/
example :
    let g := { Samples.pingPong with owners := Samples.pingPong.owners.insert "Audit.log" "Audit" }
    (g.addCall "Main.run" "Audit.log").unresolvedClasses = ["Audit"] := by
  decide +kernel

end CallGraph

end ModuleRecovery
