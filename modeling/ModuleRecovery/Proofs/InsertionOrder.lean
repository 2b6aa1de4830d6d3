import ModuleRecovery.Analysis
import ModuleRecovery.Proofs.CallCounts
import ModuleRecovery.Proofs.Clusters

/-!
Call graphs that are built edit by edit. What a method calls is the list of its call sites in the
order of the edits, and nothing else of a call graph depends on that order as long as no method is
given two owners. No metric looks at the order of call sites. Main statement: the same edits in any
order give call graphs that tell the same, and every analysis finds out the same about them.
-/

namespace ModuleRecovery

/-- All that an analysis finds out, without the call graph that it was given. -/
def Analysis.findings (a : Analysis) : AnalysisReport × CouplingGraph × Run × Run :=
  (a.report, a.graph, a.clustering, a.identification)

namespace CallGraph

variable {g g' : CallGraph} {method : MethodName} {owner : ClassName}

/-- What a method calls, one after the other; nothing for an unknown method. -/
def callees (g : CallGraph) (caller : MethodName) : List MethodName :=
  (g.calls.get? caller).getD []

/-! ## Building a call graph -/

inductive Edit where
  | declare (method : MethodName) (owner : ClassName)
  | addCall (caller callee : MethodName)
  deriving DecidableEq, Repr

namespace Edit

/-- The method that an edit makes known as a caller. -/
def caller : Edit → MethodName
  | declare method _ => method
  | addCall caller _ => caller

/-- The call site that an edit adds to a method. -/
def callee? (method : MethodName) : Edit → Option MethodName
  | declare _ _ => none
  | addCall caller callee => if caller = method then some callee else none

end Edit

def edit (g : CallGraph) : Edit → CallGraph
  | .declare method owner => g.declare method owner
  | .addCall caller callee => g.addCall caller callee

/-- The call graph that is built from nothing by some edits. -/
def ofEdits (edits : List Edit) : CallGraph := edits.foldl edit .empty

/-- No method is declared with two different owners. -/
def HaveOneOwner (edits : List Edit) : Prop :=
  ∀ method owner owner', .declare method owner ∈ edits → .declare method owner' ∈ edits →
    owner = owner'

theorem mem_keys_edit {e : Edit} :
    method ∈ (g.edit e).calls.keys ↔ method = e.caller ∨ method ∈ g.calls.keys := by
  cases e with
  | declare name owner => exact Table.mem_keys_update
  | addCall name callee => exact Table.mem_keys_update

theorem callees_edit (g : CallGraph) (e : Edit) (method : MethodName) :
    (g.edit e).callees method = g.callees method ++ (e.callee? method).toList := by
  cases e with
  | declare name owner =>
      simp only [edit, declare, Table.insertNew, callees, Table.get?_update, Edit.callee?]
      by_cases h : method = name
      · cases hcalls : g.calls.get? name <;> simp [h, hcalls]
      · simp [h]
  | addCall name callee =>
      simp only [edit, addCall, callees, Table.get?_update, Edit.callee?]
      by_cases h : method = name
      · simp [h]
      · simp [h, Ne.symm h]

theorem classOf_edit (g : CallGraph) (e : Edit) (method : MethodName) :
    (g.edit e).classOf method =
      match e with
      | .declare name owner => if method = name then some owner else g.classOf method
      | .addCall _ _ => g.classOf method := by
  cases e with
  | declare name owner => exact Table.get?_insert g.owners name method owner
  | addCall name callee => rfl

theorem mem_keys_foldl_edit {edits : List Edit} :
    method ∈ (edits.foldl edit g).calls.keys ↔
      (∃ e ∈ edits, method = e.caller) ∨ method ∈ g.calls.keys := by
  induction edits generalizing g with
  | nil => simp
  | cons e rest ih =>
      rw [List.foldl_cons, ih, mem_keys_edit, List.exists_mem_cons_iff]
      grind

theorem callees_foldl_edit (edits : List Edit) (g : CallGraph) (method : MethodName) :
    (edits.foldl edit g).callees method =
      g.callees method ++ edits.filterMap (·.callee? method) := by
  induction edits generalizing g with
  | nil => simp
  | cons e rest ih =>
      rw [List.foldl_cons, ih, callees_edit, List.append_assoc, List.filterMap_cons]
      cases e.callee? method <;> rfl

/-- The owner of a method is the declared one, and if there is none it stays as it was. -/
theorem classOf_foldl_edit {edits : List Edit} (h : HaveOneOwner edits) (g : CallGraph) :
    (edits.foldl edit g).classOf method = some owner ↔
      .declare method owner ∈ edits ∨
        (∀ owner', .declare method owner' ∉ edits) ∧ g.classOf method = some owner := by
  induction edits generalizing g with
  | nil => simp
  | cons e rest ih =>
      have hrest : HaveOneOwner rest := fun m c c' hc hc' =>
        h m c c' (List.mem_cons_of_mem _ hc) (List.mem_cons_of_mem _ hc')
      rw [List.foldl_cons, ih hrest, classOf_edit]
      cases e with
      | addCall name callee => simp
      | declare name first =>
          by_cases hname : method = name
          · -- A later declaration of the same method repeats the owner of this one.
            subst hname
            have hsame : ∀ owner', .declare method owner' ∈ rest → owner' = first := by
              intro owner' hmem
              exact h _ _ _ (List.mem_cons_of_mem _ hmem) List.mem_cons_self
            simp only [if_true, List.mem_cons, Edit.declare.injEq, true_and]
            grind
          · simp [hname]

theorem mem_keys_ofEdits {edits : List Edit} :
    method ∈ (ofEdits edits).calls.keys ↔ ∃ e ∈ edits, method = e.caller := by
  rw [ofEdits, mem_keys_foldl_edit]
  simp [empty, Table.keys, Table.empty]

theorem callees_ofEdits (edits : List Edit) (method : MethodName) :
    (ofEdits edits).callees method = edits.filterMap (·.callee? method) := by
  rw [ofEdits, callees_foldl_edit]
  rfl

theorem classOf_ofEdits {edits : List Edit} (h : HaveOneOwner edits) :
    (ofEdits edits).classOf method = some owner ↔ .declare method owner ∈ edits := by
  have hnone : empty.classOf method = none := Table.get?_empty method
  rw [ofEdits, classOf_foldl_edit h, hnone]
  simp

/-! ## Call sites in another order -/

/-- The methods, their owners and their call sites are the same, up to the order of the call sites
of each method. -/
structure Rearranges (g g' : CallGraph) : Prop where
  mem_keys_iff : ∀ method, method ∈ g.calls.keys ↔ method ∈ g'.calls.keys
  callees_perm : ∀ method, (g.callees method).Perm (g'.callees method)
  classOf_eq : ∀ method, g.classOf method = g'.classOf method

theorem rearranges_ofEdits {edits edits' : List Edit} (hperm : edits.Perm edits')
    (h : HaveOneOwner edits) : (ofEdits edits).Rearranges (ofEdits edits') where
  mem_keys_iff := by
    intro method
    rw [mem_keys_ofEdits, mem_keys_ofEdits]
    simp only [hperm.mem_iff]
  callees_perm := by
    intro method
    rw [callees_ofEdits, callees_ofEdits]
    exact hperm.filterMap _
  classOf_eq := by
    intro method
    have h' : HaveOneOwner edits' := by
      simpa only [HaveOneOwner, hperm.mem_iff] using h
    apply Option.ext
    intro owner
    rw [classOf_ofEdits h, classOf_ofEdits h', hperm.mem_iff]

/-- A list that is made of the entries is made of the keys and their call sites. -/
private theorem flatMap_entries {α : Type} (g : CallGraph)
    (f : MethodName → List MethodName → List α) :
    (g.calls.entries.flatMap fun entry => f entry.1 entry.2) =
      g.calls.keys.flatMap fun caller => f caller (g.callees caller) := by
  rw [Table.keys, List.flatMap_map]
  apply List.flatMap_congr
  rintro ⟨caller, callees⟩ hmem
  have hget : g.calls.get? caller = some callees := Table.get?_eq_some_iff.2 hmem
  simp [CallGraph.callees, hget]

namespace Rearranges

theorem keys_eq (h : g.Rearranges g') : g.calls.keys = g'.calls.keys :=
  eq_of_sorted_of_mem_iff g.calls.keys_sorted g'.calls.keys_sorted h.mem_keys_iff

private theorem flatMap_perm {α : Type} (h : g.Rearranges g')
    (f : MethodName → List MethodName → List α)
    (hf : ∀ caller {callees callees' : List MethodName}, callees.Perm callees' →
      (f caller callees).Perm (f caller callees')) :
    (g.calls.entries.flatMap fun entry => f entry.1 entry.2).Perm
      (g'.calls.entries.flatMap fun entry => f entry.1 entry.2) := by
  rw [flatMap_entries, flatMap_entries, h.keys_eq]
  apply List.Perm.flatMap_left
  intro caller _
  exact hf caller (h.callees_perm caller)

theorem edges_perm (h : g.Rearranges g') : g.edges.Perm g'.edges :=
  h.flatMap_perm (fun caller callees => callees.map fun callee => (caller, callee))
    fun _ _ _ hperm => hperm.map _

theorem methods_perm (h : g.Rearranges g') : g.methods.Perm g'.methods :=
  h.flatMap_perm List.cons fun caller _ _ hperm => hperm.cons caller

theorem resolve_eq (h : g.Rearranges g') : g.resolve = g'.resolve := by
  funext edge
  simp only [resolve, h.classOf_eq]

theorem resolvedCalls_perm (h : g.Rearranges g') : g.resolvedCalls.Perm g'.resolvedCalls := by
  rw [resolvedCalls, resolvedCalls, h.resolve_eq]
  exact h.edges_perm.filterMap _

theorem crossClassCalls_perm (h : g.Rearranges g') :
    g.crossClassCalls.Perm g'.crossClassCalls :=
  h.resolvedCalls_perm.filter _

theorem callsBetween_perm (h : g.Rearranges g') (a b : ClassName) :
    (g.callsBetween a b).Perm (g'.callsBetween a b) :=
  h.resolvedCalls_perm.filter _

theorem unresolvedEdges_perm (h : g.Rearranges g') :
    g.unresolvedEdges.Perm g'.unresolvedEdges := by
  rw [unresolvedEdges, unresolvedEdges, h.resolve_eq]
  exact h.edges_perm.filter _

theorem classes_eq (h : g.Rearranges g') : g.classes = g'.classes := by
  apply NameSet.eq_of_mem_iff
  intro name
  simp only [mem_classes_iff, h.methods_perm.mem_iff, h.classOf_eq]

theorem stats_eq (h : g.Rearranges g') : g.stats = g'.stats := by
  have hsize : g.calls.size = g'.calls.size := by
    simpa [Table.keys, Table.size] using congrArg List.length h.keys_eq
  simp only [stats, hsize, h.edges_perm.length_eq, h.resolvedCalls_perm.length_eq,
    h.crossClassCalls_perm.length_eq, h.unresolvedEdges_perm.length_eq, h.classes_eq]

theorem pairwiseCoupling_eq (h : g.Rearranges g') (a b : ClassName) :
    g.pairwiseCoupling a b = g'.pairwiseCoupling a b := by
  have hnone : g.crossClassCalls = [] ↔ g'.crossClassCalls = [] := by
    rw [← List.length_eq_zero_iff, h.crossClassCalls_perm.length_eq, List.length_eq_zero_iff]
  simp only [pairwiseCoupling, hnone, (h.callsBetween_perm a b).length_eq,
    h.crossClassCalls_perm.length_eq]

theorem couplingGraph_eq (h : g.Rearranges g') : g.couplingGraph = g'.couplingGraph := by
  apply g.isClean_couplingGraph.eq_of_weight g'.isClean_couplingGraph
  · intro name
    rw [mem_classes_couplingGraph, mem_classes_couplingGraph, h.classes_eq]
  · intro a b hne
    rw [weight_couplingGraph g hne, weight_couplingGraph g' hne,
      (h.callsBetween_perm a b).length_eq]

theorem findings_eq (h : g.Rearranges g') (settings : Settings) :
    (g.analyze settings).map Analysis.findings = (g'.analyze settings).map Analysis.findings := by
  cases hchecked : settings.checked with
  | error error =>
      simp only [analyze, hchecked]
      rfl
  | ok settings' =>
      simp only [analyze, hchecked, h.couplingGraph_eq]
      change Except.ok _ = Except.ok _
      simp only [Analysis.findings, Analysis.report, h.stats_eq]

end Rearranges

/-- It does not matter in which order a call graph is built. The same declarations and call sites
in any order, calls before the declarations of their methods too, give the same sizes, classes,
shares and coupling graph, and under all settings an analysis fails for the same reason or ends
with the same report, the same clusters and the same modules. All that is asked for is that no
method is declared with two owners. -/
theorem insertion_order_irrelevant {edits edits' : List Edit} (hperm : edits.Perm edits')
    (h : HaveOneOwner edits) :
    let g := ofEdits edits
    let g' := ofEdits edits'
    g.stats = g'.stats ∧
      g.classes = g'.classes ∧
      (∀ a b, g.pairwiseCoupling a b = g'.pairwiseCoupling a b) ∧
      g.couplingGraph = g'.couplingGraph ∧
      ∀ settings : Settings,
        (g.analyze settings).map Analysis.findings =
          (g'.analyze settings).map Analysis.findings := by
  intro g g'
  have hsame : g.Rearranges g' := rearranges_ofEdits hperm h
  exact ⟨hsame.stats_eq, hsame.classes_eq, hsame.pairwiseCoupling_eq, hsame.couplingGraph_eq,
    hsame.findings_eq⟩

/-- Three classes declared after their calls, one of them again at the end; backwards the two call
graphs list the calls of `A.f` in another order. -/
theorem insertion_order_irrelevant_declaredLate :
    let edits : List Edit := [.addCall "A.f" "B.g", .addCall "A.f" "C.h", .declare "A.f" "A",
      .declare "B.g" "B", .addCall "B.g" "A.f", .declare "C.h" "C", .declare "A.f" "A"]
    let g := ofEdits edits
    let g' := ofEdits edits.reverse
    edits.Perm edits.reverse ∧ HaveOneOwner edits ∧ g ≠ g' ∧
      g.stats = g'.stats ∧
      g.classes = g'.classes ∧
      (∀ a b, g.pairwiseCoupling a b = g'.pairwiseCoupling a b) ∧
      g.couplingGraph = g'.couplingGraph ∧
      ∀ settings : Settings,
        (g.analyze settings).map Analysis.findings =
          (g'.analyze settings).map Analysis.findings := by
  intro edits g g'
  have hperm : edits.Perm edits.reverse := (List.reverse_perm edits).symm
  have howner : HaveOneOwner edits := by
    intro method owner owner' hmem hmem'
    simp only [edits, List.mem_cons, reduceCtorEq, Edit.declare.injEq, List.not_mem_nil, false_or,
      or_false] at hmem hmem'
    grind
  have hne : g ≠ g' := by decide +kernel
  exact ⟨hperm, howner, hne, insertion_order_irrelevant hperm howner⟩

end CallGraph

end ModuleRecovery
