import Mathlib.Algebra.BigOperators.Group.Finset.Piecewise
import Mathlib.Algebra.GroupWithZero.Nat
import ModuleRecovery.Coupling
import ModuleRecovery.Proofs.CouplingGraphs

/-!
What the coupling graph of a call graph counts. Main statement: its classes are the owners of the
methods that call or are called, its entries are the numbers of call sites in methods of one class
that call methods of another one, counted in the lists of callees, and there is no other graph like
that. So it has as many classes and as many calls as the call graph tells.
-/

namespace ModuleRecovery

namespace CallGraph

variable {g : CallGraph} {method caller callee : MethodName} {name a b : ClassName}

/-! ## Methods and calls -/

theorem mem_methods_iff :
    method ∈ g.methods ↔ (∃ callees, g.calls.get? method = some callees) ∨
      ∃ caller callees, g.calls.get? caller = some callees ∧ method ∈ callees := by
  simp only [methods, List.mem_flatMap, Prod.exists, Table.get?_eq_some_iff, List.mem_cons]
  constructor
  · rintro ⟨caller, callees, hmem, rfl | hcallee⟩
    · exact Or.inl ⟨callees, hmem⟩
    · exact Or.inr ⟨caller, callees, hmem, hcallee⟩
  · rintro (⟨callees, hmem⟩ | ⟨caller, callees, hmem, hcallee⟩)
    · exact ⟨method, callees, hmem, Or.inl rfl⟩
    · exact ⟨caller, callees, hmem, Or.inr hcallee⟩

theorem mem_classes_iff :
    name ∈ g.classes ↔ ∃ method ∈ g.methods, g.classOf method = some name := by
  rw [classes, NameSet.mem_ofList, List.mem_filterMap]

theorem mem_methods_of_mem_edges (h : (caller, callee) ∈ g.edges) :
    caller ∈ g.methods ∧ callee ∈ g.methods := by
  simp only [edges, List.mem_flatMap, Prod.exists, List.mem_map, Prod.mk.injEq] at h
  obtain ⟨_, callees, hmem, _, hcallee, rfl, rfl⟩ := h
  rw [← Table.get?_eq_some_iff] at hmem
  exact ⟨mem_methods_iff.2 (Or.inl ⟨callees, hmem⟩),
    mem_methods_iff.2 (Or.inr ⟨_, callees, hmem, hcallee⟩)⟩

theorem resolve_eq_some_iff {edge : MethodName × MethodName} {call : ResolvedCall} :
    g.resolve edge = some call ↔
      call = ⟨edge.1, call.callerClass, edge.2, call.calleeClass⟩ ∧
        g.classOf edge.1 = some call.callerClass ∧ g.classOf edge.2 = some call.calleeClass := by
  obtain ⟨caller, callerClass, callee, calleeClass⟩ := call
  cases hcaller : g.classOf edge.1 with
  | none => simp [resolve, hcaller]
  | some owner =>
      cases hcallee : g.classOf edge.2 with
      | none => simp [resolve, hcaller, hcallee]
      | some owner' =>
          simp only [resolve, hcaller, hcallee, Option.bind_eq_bind, Option.bind_some,
            Option.pure_def, Option.some.injEq, ResolvedCall.mk.injEq]
          grind

theorem mem_classes_of_mem_resolvedCalls {call : ResolvedCall} (h : call ∈ g.resolvedCalls) :
    call.callerClass ∈ g.classes ∧ call.calleeClass ∈ g.classes := by
  obtain ⟨edge, hedge, hresolve⟩ := List.mem_filterMap.1 h
  obtain ⟨-, hcaller, hcallee⟩ := resolve_eq_some_iff.1 hresolve
  obtain ⟨hcaller', hcallee'⟩ := mem_methods_of_mem_edges hedge
  exact ⟨mem_classes_iff.2 ⟨_, hcaller', hcaller⟩, mem_classes_iff.2 ⟨_, hcallee', hcallee⟩⟩

/-- The number of call sites with a caller and a callee that `p` holds for. Every caller has its
own list of callees, and a callee counts there as often as it stands in the list. -/
def callSites (g : CallGraph) (p : MethodName → MethodName → Bool) : Nat :=
  (g.calls.entries.map fun entry => entry.2.countP (p entry.1)).sum

theorem countP_edges (g : CallGraph) (p : MethodName → MethodName → Bool) :
    (g.edges.countP fun edge => p edge.1 edge.2) = g.callSites p := by
  rw [edges, List.countP_flatMap, callSites]
  congr 2
  funext entry
  rw [Function.comp_apply, List.countP_map]
  rfl

/-- Resolved calls are counted where their call sites are. -/
theorem length_filter_resolvedCalls (g : CallGraph) (p : ResolvedCall → Bool) :
    (g.resolvedCalls.filter p).length =
      g.callSites fun caller callee => (g.resolve (caller, callee)).any p := by
  rw [← List.countP_eq_length_filter, resolvedCalls, List.countP_filterMap, ← countP_edges]
  congr 1
  funext edge
  change _ = (g.resolve edge).any p
  cases g.resolve edge <;> rfl

/-- The calls from one class to another are those whose two ends the classes own. -/
theorem length_callsBetween (g : CallGraph) (a b : ClassName) :
    (g.callsBetween a b).length =
      g.callSites fun caller callee => g.classOf caller = some a ∧ g.classOf callee = some b := by
  rw [callsBetween, length_filter_resolvedCalls]
  congr 1
  funext caller callee
  cases hcaller : g.classOf caller with
  | none => simp [resolve, hcaller]
  | some owner => cases hcallee : g.classOf callee <;> simp [resolve, hcaller, hcallee]

/-- The calls between classes are those whose two ends have an owner, but not the same one. -/
theorem length_crossClassCalls (g : CallGraph) :
    g.crossClassCalls.length =
      g.callSites fun caller callee => (g.classOf caller).isSome ∧ (g.classOf callee).isSome ∧
        g.classOf caller ≠ g.classOf callee := by
  rw [crossClassCalls, length_filter_resolvedCalls]
  congr 1
  funext caller callee
  cases hcaller : g.classOf caller with
  | none => simp [resolve, hcaller]
  | some owner =>
      cases hcallee : g.classOf callee <;>
        simp [resolve, hcaller, hcallee, ResolvedCall.crossesClasses]

/-- The calls between classes, counted by their two classes. -/
private theorem length_filter_crossesClasses {calls : List ResolvedCall} {names : Finset ClassName}
    (hnames : ∀ call ∈ calls, call.callerClass ∈ names ∧ call.calleeClass ∈ names) :
    (calls.filter (·.crossesClasses)).length =
      ∑ a ∈ names, ∑ b ∈ names,
        if a = b then 0
        else calls.countP fun call => call.callerClass = a ∧ call.calleeClass = b := by
  induction calls with
  | nil => simp
  | cons call rest ih =>
      obtain ⟨⟨hcaller, hcallee⟩, hrest⟩ := List.forall_mem_cons.1 hnames
      -- The call counts at its own two classes, and there only if they differ.
      have hterm (a b : ClassName) :
          (if a = b then 0
            else (call :: rest).countP fun call => call.callerClass = a ∧ call.calleeClass = b) =
          (if a = b then 0
            else rest.countP fun call => call.callerClass = a ∧ call.calleeClass = b) +
            if call.callerClass = a then
              if call.calleeClass = b then if call.crossesClasses then 1 else 0 else 0
            else 0 := by
        rw [List.countP_cons]
        by_cases ha : call.callerClass = a
        · by_cases hb : call.calleeClass = b
          · subst ha hb
            by_cases hsame : call.callerClass = call.calleeClass
            · simp [hsame, ResolvedCall.crossesClasses]
            · simp [hsame, ResolvedCall.crossesClasses]
          · simp [hb]
        · simp [ha]
      simp only [hterm, Finset.sum_add_distrib, ← ih hrest, Finset.sum_ite_irrel,
        Finset.sum_const_zero, Finset.sum_ite_eq, hcaller, hcallee, if_true, List.filter_cons]
      split <;> rfl

end CallGraph

namespace CouplingGraph

variable {w : CouplingGraph} {name a b x : ClassName}

/-! ## Counting the calls -/

/-- The graph with some calls counted, one after the other. -/
def recordAll (w : CouplingGraph) (calls : List ResolvedCall) : CouplingGraph :=
  calls.foldl (fun graph call => graph.recordCall call.callerClass call.calleeClass) w

theorem recordAll_cons (w : CouplingGraph) (call : ResolvedCall) (rest : List ResolvedCall) :
    w.recordAll (call :: rest) =
      (w.recordCall call.callerClass call.calleeClass).recordAll rest := rfl

theorem IsClean.recordAll (hw : w.IsClean) (calls : List ResolvedCall) :
    (w.recordAll calls).IsClean := by
  induction calls generalizing w with
  | nil => exact hw
  | cons call rest ih =>
      rw [recordAll_cons]
      exact ih (hw.recordCall call.callerClass call.calleeClass)

theorem mem_classes_recordAll {calls : List ResolvedCall} :
    x ∈ (w.recordAll calls).classes ↔
      x ∈ w.classes ∨ ∃ call ∈ calls, x = call.callerClass ∨ x = call.calleeClass := by
  induction calls generalizing w with
  | nil => simp [recordAll]
  | cons call rest ih =>
      rw [recordAll_cons, ih, mem_classes_recordCall, List.exists_mem_cons_iff]
      grind

theorem weight_recordAll (w : CouplingGraph) (calls : List ResolvedCall) (hne : a ≠ b) :
    (w.recordAll calls).weight a b =
      w.weight a b + calls.countP fun call => call.callerClass = a ∧ call.calleeClass = b := by
  induction calls generalizing w with
  | nil => rfl
  | cons call rest ih =>
      have hsame : (call.callerClass ≠ call.calleeClass ∧ a = call.callerClass ∧
          b = call.calleeClass) ↔ call.callerClass = a ∧ call.calleeClass = b := by
        constructor
        · rintro ⟨-, rfl, rfl⟩
          exact ⟨rfl, rfl⟩
        · rintro ⟨rfl, rfl⟩
          exact ⟨hne, rfl, rfl⟩
      rw [recordAll_cons, ih, weight_recordCall, List.countP_cons]
      simp only [hsame, decide_eq_true_eq]
      omega

theorem mem_classes_foldl_ensureClass {names : List ClassName} :
    x ∈ (names.foldl ensureClass w).classes ↔ x ∈ names ∨ x ∈ w.classes := by
  induction names generalizing w with
  | nil => simp
  | cons name rest ih =>
      rw [List.foldl_cons, ih, mem_classes_ensureClass, List.mem_cons]
      grind

theorem stored?_foldl_ensureClass (names : List ClassName) (w : CouplingGraph) (a b : ClassName) :
    (names.foldl ensureClass w).stored? a b = w.stored? a b := by
  induction names generalizing w with
  | nil => rfl
  | cons name rest ih => rw [List.foldl_cons, ih, stored?_ensureClass]

/-- The classes are those of the call graph, and every entry is the number of call sites in one
class that call another one; where there are none there is no entry. -/
structure Counts (w : CouplingGraph) (g : CallGraph) : Prop where
  mem_classes_iff : ∀ name, name ∈ w.classes ↔ ∃ method,
    ((∃ callees, g.calls.get? method = some callees) ∨
      ∃ caller callees, g.calls.get? caller = some callees ∧ method ∈ callees) ∧
    g.classOf method = some name
  weight_eq : ∀ a b, a ≠ b → w.weight a b =
    g.callSites fun caller callee => g.classOf caller = some a ∧ g.classOf callee = some b
  entry_ne_self : ∀ a b weight, w.stored? a b = some weight → b ≠ a
  entry_ne_zero : ∀ a b weight, w.stored? a b = some weight → weight ≠ 0
  target_mem : ∀ a b weight, w.stored? a b = some weight → b ∈ w.classes

theorem Counts.isClean {g : CallGraph} (h : w.Counts g) : w.IsClean := by
  intro a b weight hentry
  exact ⟨h.entry_ne_self a b weight hentry, h.entry_ne_zero a b weight hentry,
    h.target_mem a b weight hentry⟩

theorem Counts.eq {v : CouplingGraph} {g : CallGraph} (hw : w.Counts g) (hv : v.Counts g) :
    w = v := by
  apply hw.isClean.eq_of_weight hv.isClean
  · intro name
    rw [hw.mem_classes_iff, hv.mem_classes_iff]
  · intro a b hne
    rw [hw.weight_eq a b hne, hv.weight_eq a b hne]

end CouplingGraph

namespace CallGraph

variable {g : CallGraph} {name a b : ClassName}

theorem couplingGraph_eq (g : CallGraph) :
    g.couplingGraph =
      (g.classes.toList.foldl CouplingGraph.ensureClass .empty).recordAll g.resolvedCalls := rfl

theorem isClean_couplingGraph (g : CallGraph) : g.couplingGraph.IsClean := by
  rw [couplingGraph_eq]
  apply CouplingGraph.IsClean.recordAll
  intro a b weight hentry
  rw [CouplingGraph.stored?_foldl_ensureClass] at hentry
  cases hentry

theorem mem_classes_couplingGraph : name ∈ g.couplingGraph.classes ↔ name ∈ g.classes := by
  rw [couplingGraph_eq, CouplingGraph.mem_classes_recordAll,
    CouplingGraph.mem_classes_foldl_ensureClass]
  constructor
  · rintro ((h | h) | ⟨call, hcall, rfl | rfl⟩)
    · exact h
    · cases h
    · exact (mem_classes_of_mem_resolvedCalls hcall).1
    · exact (mem_classes_of_mem_resolvedCalls hcall).2
  · intro h
    exact Or.inl (Or.inl h)

theorem weight_couplingGraph (g : CallGraph) (hne : a ≠ b) :
    g.couplingGraph.weight a b = (g.callsBetween a b).length := by
  have hstart : (g.classes.toList.foldl CouplingGraph.ensureClass .empty).weight a b = 0 := by
    rw [CouplingGraph.weight_eq_getD, CouplingGraph.stored?_foldl_ensureClass]
    rfl
  rw [couplingGraph_eq, CouplingGraph.weight_recordAll _ _ hne, hstart, Nat.zero_add,
    callsBetween, List.countP_eq_length_filter]

theorem couplingGraph_counts (g : CallGraph) : g.couplingGraph.Counts g where
  mem_classes_iff := by
    intro name
    rw [mem_classes_couplingGraph, mem_classes_iff]
    simp only [mem_methods_iff]
  weight_eq := by
    intro a b hne
    rw [weight_couplingGraph g hne, length_callsBetween]
  entry_ne_self := fun a b weight hentry => (g.isClean_couplingGraph a b weight hentry).1
  entry_ne_zero := fun a b weight hentry => (g.isClean_couplingGraph a b weight hentry).2.1
  target_mem := fun a b weight hentry => (g.isClean_couplingGraph a b weight hentry).2.2

theorem totalWeight_couplingGraph (g : CallGraph) :
    g.couplingGraph.totalWeight = g.crossClassCalls.length := by
  have hnames : ∀ call ∈ g.resolvedCalls, call.callerClass ∈ g.couplingGraph.classes.toFinset ∧
      call.calleeClass ∈ g.couplingGraph.classes.toFinset := by
    intro call hcall
    simp only [List.mem_toFinset, mem_classes_couplingGraph]
    exact mem_classes_of_mem_resolvedCalls hcall
  rw [g.isClean_couplingGraph.totalWeight_eq_sum, crossClassCalls,
    length_filter_crossesClasses hnames]
  apply Finset.sum_congr rfl
  intro a _
  apply Finset.sum_congr rfl
  intro b _
  by_cases hsame : a = b
  · rw [if_pos hsame, hsame, g.isClean_couplingGraph.weight_self]
  · rw [if_neg hsame, weight_couplingGraph g hsame, callsBetween, List.countP_eq_length_filter]

theorem classes_couplingGraph (g : CallGraph) : g.couplingGraph.classes = g.classes.toList := by
  apply eq_of_sorted_of_mem_iff g.couplingGraph.rows.keys_sorted g.classes.sorted
  intro name
  exact mem_classes_couplingGraph

/-- The coupling graph of a call graph is the one graph that counts its calls between classes. All
its weights together are the call sites whose two ends have different owners, as many as the call
graph tells, and it has a class for every class that calls or is called. -/
theorem couplingGraph_exact (g : CallGraph) :
    (∀ w : CouplingGraph, w = g.couplingGraph ↔ w.Counts g) ∧
      (g.couplingGraph.totalWeight = g.callSites fun caller callee =>
        (g.classOf caller).isSome ∧ (g.classOf callee).isSome ∧
          g.classOf caller ≠ g.classOf callee) ∧
      g.couplingGraph.totalWeight = g.stats.crossClassEdges ∧
      g.couplingGraph.classCount = g.stats.classes := by
  refine ⟨?_, ?_, g.totalWeight_couplingGraph, ?_⟩
  · intro w
    constructor
    · rintro rfl
      exact g.couplingGraph_counts
    · intro h
      exact h.eq g.couplingGraph_counts
  · rw [totalWeight_couplingGraph, length_crossClassCalls]
  · have hlength := congrArg List.length g.classes_couplingGraph
    rw [CouplingGraph.classes, Table.keys, List.length_map] at hlength
    exact hlength

end CallGraph

end ModuleRecovery
