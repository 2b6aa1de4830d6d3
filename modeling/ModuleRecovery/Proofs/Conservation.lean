import ModuleRecovery.Proofs.CallCounts
import ModuleRecovery.Proofs.Events

/-!
Where the calls of a graph go while its classes are merged. A call is within one cluster or between
two of them. A merge brings the calls between its two clusters inside and moves no others, and how
many these are is written down as its coupling. Main statement: the couplings recorded so far and
the couplings between the clusters that are left always add up to the total weight of the graph; so
hierarchical clustering of a call graph records each call between classes exactly once.
-/

namespace ModuleRecovery

/-- A sum over ordered pairs, taken over the pairs of equals and over each other pair in both
orders. -/
theorem sum_sum_eq_diag_add_pairs {α : Type} [LinearOrder α] (s : Finset α) (f : α → α → Nat) :
    ∑ a ∈ s, ∑ b ∈ s, f a b =
      ∑ a ∈ s, f a a + ∑ a ∈ s, ∑ b ∈ s with a < b, (f a b + f b a) := by
  have hsplit (a b : α) : f a b = (if a = b then f a b else 0) +
      ((if a < b then f a b else 0) + if b < a then f a b else 0) := by
    rcases lt_trichotomy a b with hlt | rfl | hlt
    · simp [hlt, hlt.ne, hlt.not_gt]
    · simp
    · simp [hlt, hlt.ne', hlt.not_gt]
  have hdiag : ∑ a ∈ s, ∑ b ∈ s, (if a = b then f a b else 0) = ∑ a ∈ s, f a a := by
    apply Finset.sum_congr rfl
    intro a ha
    rw [Finset.sum_ite_eq, if_pos ha]
  have hswap : ∑ a ∈ s, ∑ b ∈ s, (if b < a then f a b else 0) =
      ∑ a ∈ s, ∑ b ∈ s, if a < b then f b a else 0 := Finset.sum_comm
  calc
    ∑ a ∈ s, ∑ b ∈ s, f a b =
        ∑ a ∈ s, ∑ b ∈ s, ((if a = b then f a b else 0) +
          ((if a < b then f a b else 0) + if b < a then f a b else 0)) := by
      simp only [← hsplit]
    _ = ∑ a ∈ s, f a a + (∑ a ∈ s, ∑ b ∈ s, (if a < b then f a b else 0) +
          ∑ a ∈ s, ∑ b ∈ s, if a < b then f b a else 0) := by
      simp only [Finset.sum_add_distrib, hdiag, hswap]
    _ = ∑ a ∈ s, f a a + ∑ a ∈ s, ∑ b ∈ s with a < b, (f a b + f b a) := by
      simp only [Finset.sum_filter, Finset.sum_add_distrib]

namespace CouplingGraph

variable {g : CouplingGraph} {s t : Finset ClassName}

/-- The calls from some classes to others. -/
def weightBetween (g : CouplingGraph) (s t : Finset ClassName) : Nat :=
  ∑ x ∈ s, ∑ y ∈ t, g.weight x y

theorem weightBetween_union_self (g : CouplingGraph) (h : Disjoint s t) :
    g.weightBetween (s ∪ t) (s ∪ t) =
      g.weightBetween s s + g.weightBetween t t +
        (g.weightBetween s t + g.weightBetween t s) := by
  simp only [weightBetween, Finset.sum_union h, Finset.sum_add_distrib]
  omega

end CouplingGraph

namespace Clusters

variable {c : Clusters} {g : CouplingGraph} {classes : Set ClassName} {keep absorb : ClassName}

/-- The coupling of all pairs of clusters together, each pair taken once. -/
def outerCoupling (c : Clusters) (g : CouplingGraph) : Nat :=
  ∑ a ∈ c.keys.toFinset, ∑ b ∈ c.keys.toFinset with a < b, c.interCoupling g a b

/-- The calls within the clusters. -/
def innerCoupling (c : Clusters) (g : CouplingGraph) : Nat :=
  ∑ key ∈ c.keys.toFinset,
    g.weightBetween (c.membersOf key).toFinset (c.membersOf key).toFinset

theorem interCoupling_eq_weightBetween (c : Clusters) (g : CouplingGraph) (a b : ClassName) :
    c.interCoupling g a b =
      g.weightBetween (c.membersOf a).toFinset (c.membersOf b).toFinset +
        g.weightBetween (c.membersOf b).toFinset (c.membersOf a).toFinset := by
  have hback : g.weightBetween (c.membersOf b).toFinset (c.membersOf a).toFinset =
      ∑ x ∈ (c.membersOf a).toFinset, ∑ y ∈ (c.membersOf b).toFinset, g.weight y x :=
    Finset.sum_comm
  rw [interCoupling_eq_sum, hback]
  simp only [CouplingGraph.mutualWeight, CouplingGraph.weightBetween, Finset.sum_add_distrib]

/-- Every call between classes is within a cluster or between two of them. -/
theorem IsPartition.inner_add_outer (h : c.IsPartition g.classSet) :
    c.innerCoupling g + c.outerCoupling g =
      ∑ x ∈ g.classes.toFinset, ∑ y ∈ g.classes.toFinset, g.weight x y := by
  let members (key : ClassName) : Finset ClassName := (c.membersOf key).toFinset
  have hpairs : ∑ x ∈ g.classes.toFinset, ∑ y ∈ g.classes.toFinset, g.weight x y =
      ∑ a ∈ c.keys.toFinset, ∑ b ∈ c.keys.toFinset, g.weightBetween (members a) (members b) := by
    rw [← h.sum_members]
    apply Finset.sum_congr rfl
    intro a _
    simp only [← h.sum_members, CouplingGraph.weightBetween, members]
    exact Finset.sum_comm
  rw [hpairs, sum_sum_eq_diag_add_pairs]
  simp only [innerCoupling, outerCoupling, interCoupling_eq_weightBetween, members]

theorem Uncoupled.outerCoupling_eq_zero (h : c.Uncoupled g) : c.outerCoupling g = 0 := by
  apply Finset.sum_eq_zero
  intro a ha
  apply Finset.sum_eq_zero
  intro b hb
  obtain ⟨hb, hlt⟩ := Finset.mem_filter.1 hb
  exact h a (List.mem_toFinset.1 ha) b (List.mem_toFinset.1 hb) hlt.ne

theorem innerCoupling_singletons (hg : g.IsClean) : (singletons g).innerCoupling g = 0 := by
  apply Finset.sum_eq_zero
  intro key hkey
  have hclass : key ∈ g.classes := keys_singletons g ▸ List.mem_toFinset.1 hkey
  simp [CouplingGraph.weightBetween, membersOf_singletons hclass, hg.weight_self]

/-- A merge brings the calls between its two clusters inside, and no others. -/
theorem IsPartition.innerCoupling_join (h : c.IsPartition classes) (hkeep : keep ∈ c.keys)
    (habsorb : absorb ∈ c.keys) (hne : keep ≠ absorb) :
    (c.join keep absorb).innerCoupling g = c.innerCoupling g + c.interCoupling g keep absorb := by
  let within (d : Clusters) (key : ClassName) : Nat :=
    g.weightBetween (d.membersOf key).toFinset (d.membersOf key).toFinset
  have hmem : keep ∈ c.keys.toFinset.erase absorb :=
    Finset.mem_erase.2 ⟨hne, List.mem_toFinset.2 hkeep⟩
  have hothers : ∑ key ∈ (c.keys.toFinset.erase absorb).erase keep, within (c.join keep absorb) key =
      ∑ key ∈ (c.keys.toFinset.erase absorb).erase keep, within c key := by
    apply Finset.sum_congr rfl
    intro key hkey
    obtain ⟨hk, hkey⟩ := Finset.mem_erase.1 hkey
    obtain ⟨ha, -⟩ := Finset.mem_erase.1 hkey
    simp only [within, membersOf_join_of_ne hk ha]
  have hnew : within (c.join keep absorb) keep =
      within c keep + within c absorb + c.interCoupling g keep absorb := by
    simp only [within, toFinset_membersOf_join_keep,
      g.weightBetween_union_self (h.disjoint_members hne), interCoupling_eq_weightBetween]
  have hbefore : c.innerCoupling g = within c absorb + (within c keep +
      ∑ key ∈ (c.keys.toFinset.erase absorb).erase keep, within c key) := by
    rw [Finset.add_sum_erase _ _ hmem, Finset.add_sum_erase _ _ (List.mem_toFinset.2 habsorb)]
    rfl
  have hafter : (c.join keep absorb).innerCoupling g = within (c.join keep absorb) keep +
      ∑ key ∈ (c.keys.toFinset.erase absorb).erase keep, within (c.join keep absorb) key := by
    rw [Finset.add_sum_erase _ _ hmem, ← toFinset_keys_join hkeep hne]
    rfl
  rw [hafter, hbefore, hothers, hnew]
  omega

end Clusters

namespace Rule

variable {rule : Rule} {g : CouplingGraph} {c : Clusters} {steps : List MergeStep}

theorem Reaches.innerCoupling_eq (hreaches : rule.Reaches g (.singletons g) steps c) :
    c.innerCoupling g =
      (Clusters.singletons g).innerCoupling g + (steps.map (·.coupling)).sum := by
  induction hreaches with
  | start => rfl
  | @merge steps c pair made hreaches haccepts ih =>
      have hp := haccepts.isClosest
      rw [hreaches.cohesive.1.innerCoupling_join hp.keep_mem hp.absorb_mem hp.keep_lt.ne, ih,
        ← hp.coupling_eq, List.map_append, List.sum_append, List.map_singleton, List.sum_singleton]
      exact Nat.add_assoc _ _ _

theorem Reaches.coupling_add_outer (hg : g.IsClean)
    (hreaches : rule.Reaches g (.singletons g) steps c) :
    (steps.map (·.coupling)).sum + c.outerCoupling g = g.totalWeight := by
  have hinner := hreaches.innerCoupling_eq
  rw [Clusters.innerCoupling_singletons hg, Nat.zero_add] at hinner
  rw [hg.totalWeight_eq_sum, ← hreaches.cohesive.1.inner_add_outer, hinner]

/-- Coupling is conserved. At the start, at every event of any runs one after the other, and so at
the end of each of them, the couplings of all merges so far and of all pairs of clusters that are
left add up to the total weight of the graph, if it was built call by call. Hierarchical clustering
of a call graph leaves no coupling, so its merges account for all calls between classes. -/
theorem coupling_conserved :
    (∀ (edits : List CouplingGraph.Edit) (rule : Rule) (budgets : List (Option Nat)),
      let g := CouplingGraph.ofEdits edits
      let runs := rule.runAll g budgets (.singletons g)
      (Clusters.singletons g).outerCoupling g = g.totalWeight ∧
      ∀ told event later, runs.flatMap (·.events) = told ++ event :: later →
        (((told ++ [event]).filterMap (·.step?)).map (·.coupling)).sum +
          event.clusters.outerCoupling g = g.totalWeight) ∧
    ∀ callGraph : CallGraph,
      let g := callGraph.couplingGraph
      ((Rule.hierarchical.run g none (.singletons g)).outcome.steps.map (·.coupling)).sum =
        callGraph.stats.crossClassEdges := by
  constructor
  · intro edits rule budgets g runs
    have hclean : g.IsClean := CouplingGraph.isClean_ofEdits edits
    constructor
    · have hstart : rule.Reaches g (.singletons g) [] (.singletons g) := .start
      simpa using hstart.coupling_add_outer hclean
    · intro told event later hevents
      exact (Reaches.start.runAll_event hevents).coupling_add_outer hclean
  · intro callGraph g
    let r := Rule.hierarchical.run g none (.singletons g)
    have path := Rule.hierarchical.path_run g none (.singletons g)
    have hreaches : Rule.hierarchical.Reaches g (.singletons g) r.outcome.steps r.final :=
      path.reaches .start
    obtain ⟨huncoupled, -⟩ :=
      uncoupled_of_stops (Rule.hierarchical.stops_run g none (.singletons g))
    have htotal := hreaches.coupling_add_outer callGraph.isClean_couplingGraph
    rw [huncoupled.outerCoupling_eq_zero, Nat.add_zero] at htotal
    exact htotal.trans callGraph.totalWeight_couplingGraph

theorem coupling_conserved_after_first_merge :
    let g := CouplingGraph.ofEdits
      [.recordCall "A" "B", .recordCall "B" "A", .recordCall "B" "C", .recordCall "C" "C",
        .ensureClass "D"]
    let events := (Rule.hierarchical.runAll g [some 1, none] (.singletons g)).flatMap (·.events)
    ∃ event later, events = event :: later ∧ event.clusters.keys = ["A", "C", "D"] ∧
      2 + event.clusters.outerCoupling g = g.totalWeight := by
  intro g events
  have hfirst : events.head?.map (fun event =>
      (event.clusters.keys, event.step?.map (·.coupling))) = some (["A", "C", "D"], some 2) := by
    decide +kernel
  obtain ⟨event, hevent, hshown⟩ := Option.map_eq_some_iff.1 hfirst
  obtain ⟨hkeys, hmerge⟩ := Prod.mk.inj hshown
  obtain ⟨step, hstep, hcoupling⟩ := Option.map_eq_some_iff.1 hmerge
  obtain ⟨later, hevents⟩ := List.head?_eq_some_iff.1 hevent
  have h := (coupling_conserved.1 _ .hierarchical [some 1, none]).2 [] event later hevents
  refine ⟨event, later, hevents, hkeys, ?_⟩
  simpa [hstep, hcoupling] using h

end Rule

end ModuleRecovery
