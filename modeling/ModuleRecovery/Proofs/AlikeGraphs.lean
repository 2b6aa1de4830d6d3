import ModuleRecovery.Proofs.InnerWeights

/-!
What clustering sees of a coupling graph. It looks at the classes and, of any two different ones,
at their calls in both directions together: so do the choice of a pair, as each pair of members is
counted both ways, and the averages, as each pair of members stands in the sum in both orders. Main
statement: on graphs that agree in this all runs are equal; so reversing every call changes
nothing, nor does leaving out entries of a class for itself, of no weight or for an unknown class.
-/

namespace ModuleRecovery

namespace CouplingGraph

variable {g h : CouplingGraph}

/-- The same classes, and between any two of them as many calls in both directions together. -/
structure Alike (g h : CouplingGraph) : Prop where
  mem_classes_iff : ∀ x, x ∈ g.classes ↔ x ∈ h.classes
  mutualWeight_eq : ∀ x ∈ g.classes, ∀ y ∈ g.classes, x ≠ y →
    g.mutualWeight x y = h.mutualWeight x y

/-- All series of runs are the same on both graphs, and so are the averages after each run. -/
def SameRuns (g h : CouplingGraph) : Prop :=
  ∀ (rule : Rule) (budgets : List (Option Nat)),
    rule.runAll g budgets (.singletons g) = rule.runAll h budgets (.singletons h) ∧
    ∀ r ∈ rule.runAll g budgets (.singletons g), r.final.averages g = r.final.averages h

namespace Alike

theorem singletons_eq (halike : g.Alike h) : Clusters.singletons g = .singletons h := by
  apply Clusters.eq_of_mem_iff
  · intro key
    rw [Clusters.keys_singletons, Clusters.keys_singletons]
    exact halike.mem_classes_iff key
  · intro key x
    rw [Clusters.mem_membersOf_singletons, Clusters.mem_membersOf_singletons,
      halike.mem_classes_iff]

theorem innerWeight_eq (halike : g.Alike h) {s : Finset ClassName}
    (hs : ∀ x ∈ s, x ∈ g.classes) : g.innerWeight s = h.innerWeight s := by
  have hboth : 2 * g.innerWeight s = 2 * h.innerWeight s := by
    rw [two_mul_innerWeight, two_mul_innerWeight]
    apply Finset.sum_congr rfl
    intro x hx
    apply Finset.sum_congr rfl
    intro y hy
    obtain ⟨hy, hne⟩ := Finset.mem_filter.1 hy
    exact halike.mutualWeight_eq x (hs x hx) y (hs y hy) hne
  omega

theorem averageCoupling_eq (halike : g.Alike h) {members : List ClassName}
    (hnodup : members.Nodup) (hmembers : ∀ x ∈ members, x ∈ g.classes) :
    g.averageCoupling members = h.averageCoupling members := by
  have hinner : g.innerWeight members.toFinset = h.innerWeight members.toFinset :=
    halike.innerWeight_eq fun x hx => hmembers x (List.mem_toFinset.1 hx)
  rw [g.averageCoupling_eq hnodup, h.averageCoupling_eq hnodup, hinner]

section Clusters

variable {c : Clusters} (halike : g.Alike h) (hpart : c.IsPartition g.classSet)

include halike hpart

theorem average_eq (key : ClassName) : c.average g key = c.average h key :=
  halike.averageCoupling_eq (c.membersOf_nodup key) fun x hx => (hpart.mem_iff x).2 ⟨key, hx⟩

theorem averages_eq : c.averages g = c.averages h := by
  apply List.map_congr_left
  intro key _
  rw [halike.average_eq hpart]

theorem mergedAverage_eq (a b : ClassName) : c.mergedAverage g a b = c.mergedAverage h a b := by
  apply halike.averageCoupling_eq (c.union_nodup a b)
  intro x hx
  rcases Clusters.mem_union.1 hx with hx | hx
  · exact (hpart.mem_iff x).2 ⟨a, hx⟩
  · exact (hpart.mem_iff x).2 ⟨b, hx⟩

/-- Two different clusters of a partition have different members only. -/
theorem interCoupling_eq {a b : ClassName} (hne : a ≠ b) :
    c.interCoupling g a b = c.interCoupling h a b := by
  rw [Clusters.interCoupling_eq_sum, Clusters.interCoupling_eq_sum]
  apply Finset.sum_congr rfl
  intro x hx
  apply Finset.sum_congr rfl
  intro y hy
  rw [List.mem_toFinset] at hx hy
  apply halike.mutualWeight_eq x ((hpart.mem_iff x).2 ⟨a, hx⟩) y ((hpart.mem_iff y).2 ⟨b, hy⟩)
  rintro rfl
  exact hne (hpart.unique hx hy)

theorem closestPair_eq : c.closestPair g = c.closestPair h := by
  have hcandidates : c.candidates g = c.candidates h := by
    apply List.map_congr_left
    rintro ⟨a, b⟩ hab
    obtain ⟨-, -, hlt⟩ := (mem_pairsInOrder_iff c.keys_sorted).1 hab
    simp only [halike.interCoupling_eq hpart hlt.ne]
  simp only [Clusters.closestPair, hcandidates]

theorem next_eq (rule : Rule) (budget : Option Nat) (made : Nat) :
    rule.next g budget made c = rule.next h budget made c := by
  have hjudge (pair : Candidate) : rule.judge g c pair = rule.judge h c pair := by
    cases rule with
    | hierarchical => rfl
    | modules bound minimum => simp only [Rule.judge, halike.mergedAverage_eq hpart]
  simp only [Rule.next, halike.closestPair_eq hpart, hjudge]

end Clusters

variable {rule : Rule} {c : Clusters} {steps : List MergeStep}

theorem runFrom_eq (halike : g.Alike h) {budget : Option Nat} {made : Nat}
    (hreaches : rule.Reaches g (.singletons g) steps c) :
    rule.runFrom g budget made c = rule.runFrom h budget made c := by
  induction made, c using Rule.runFrom.induct rule g budget generalizing steps with
  | case1 made c reason hnext =>
      have hnext' := hnext
      rw [halike.next_eq hreaches.cohesive.1] at hnext'
      rw [Rule.runFrom_of_stop hnext, Rule.runFrom_of_stop hnext']
  | case2 made c pair average hnext hlt after =>
      rename_i ih
      have hnext' := hnext
      rw [halike.next_eq hreaches.cohesive.1] at hnext'
      obtain ⟨haccepts, haverage, -⟩ := Rule.accepts_of_next hnext
      obtain ⟨-, haverage', -⟩ := Rule.accepts_of_next hnext'
      have hrecord : rule.record g made c pair = rule.record h made c pair := by
        simp only [Rule.record, ← haverage, ← haverage']
      have hrest : rule.runFrom g budget (made + 1) (c.join pair.keep pair.absorb) =
          rule.runFrom h budget (made + 1) (c.join pair.keep pair.absorb) :=
        ih (hreaches.merge made haccepts)
      simp only [Rule.runFrom_of_merge hnext, Rule.runFrom_of_merge hnext', hrecord, hrest]

theorem runAll_eq (halike : g.Alike h) (budgets : List (Option Nat))
    (hreaches : rule.Reaches g (.singletons g) steps c) :
    rule.runAll g budgets c = rule.runAll h budgets c := by
  induction budgets generalizing c steps with
  | nil => rfl
  | cons budget budgets ih =>
      have hfirst : rule.run g budget c = rule.run h budget c := halike.runFrom_eq hreaches
      have hrest := ih ((rule.path_run g budget c).reaches hreaches)
      rw [Rule.runAll, Rule.runAll, ← hfirst, hrest]

theorem sameRuns (halike : g.Alike h) : g.SameRuns h := by
  intro rule budgets
  constructor
  · rw [← halike.singletons_eq]
    exact halike.runAll_eq budgets .start
  · intro r hr
    obtain ⟨budget, earlier, before, hreaches, rfl⟩ := Rule.Reaches.start.exists_run hr
    have hend := (rule.path_run g budget before).reaches hreaches
    exact halike.averages_eq hend.cohesive.1

end Alike

/-! ## Reversed calls -/

/-- A call in the other direction. -/
def Edit.reversed : Edit → Edit
  | .ensureClass name => .ensureClass name
  | .recordCall source target => .recordCall target source

/-- The same classes, with the weights the other way round. -/
structure IsReverse (g h : CouplingGraph) : Prop where
  mem_classes_iff : ∀ x, x ∈ g.classes ↔ x ∈ h.classes
  weight_eq : ∀ x y, g.weight x y = h.weight y x

theorem IsReverse.alike (hreverse : g.IsReverse h) : g.Alike h where
  mem_classes_iff := hreverse.mem_classes_iff
  mutualWeight_eq := by
    intro x _ y _ _
    rw [mutualWeight, hreverse.weight_eq x y, hreverse.weight_eq y x]
    exact Nat.add_comm _ _

theorem weight_ensureClass (g : CouplingGraph) (name a b : ClassName) :
    (g.ensureClass name).weight a b = g.weight a b := by
  rw [weight_eq_getD, stored?_ensureClass, weight_eq_getD]

theorem IsReverse.edit (hreverse : g.IsReverse h) (e : Edit) :
    (g.edit e).IsReverse (h.edit e.reversed) := by
  cases e with
  | ensureClass name =>
      refine ⟨fun x => ?_, fun x y => ?_⟩
      · simp only [CouplingGraph.edit, Edit.reversed, mem_classes_ensureClass,
          hreverse.mem_classes_iff]
      · simp only [CouplingGraph.edit, Edit.reversed, weight_ensureClass, hreverse.weight_eq]
  | recordCall source target =>
      refine ⟨fun x => ?_, fun x y => ?_⟩
      · simp only [CouplingGraph.edit, Edit.reversed, mem_classes_recordCall,
          hreverse.mem_classes_iff]
        exact or_left_comm
      · have hcall : source ≠ target ∧ x = source ∧ y = target ↔
            target ≠ source ∧ y = target ∧ x = source := by
          rw [ne_comm, and_comm (a := x = source)]
        simp only [CouplingGraph.edit, Edit.reversed, weight_recordCall, hreverse.weight_eq x y,
          hcall]

theorem isReverse_ofEdits (edits : List Edit) :
    (ofEdits edits).IsReverse (ofEdits (edits.map .reversed)) := by
  have hedits (g h : CouplingGraph) (hreverse : g.IsReverse h) :
      (edits.foldl edit g).IsReverse ((edits.map .reversed).foldl edit h) := by
    induction edits generalizing g h with
    | nil => exact hreverse
    | cons e rest ih => exact ih _ _ (hreverse.edit e)
  exact hedits _ _ ⟨fun _ => Iff.rfl, fun _ _ => rfl⟩

/-! ## Entries left out -/

/-- The graph with some of its entries only. All classes stay. -/
def keeping (g : CouplingGraph) (keep : CouplingEdge → Bool) : CouplingGraph :=
  ⟨⟨g.rows.entries.map fun (source, row) =>
      (source, ⟨row.entries.filter fun (target, weight) => keep ⟨source, target, weight⟩,
        row.sorted.filter _⟩),
    by simpa [List.pairwise_map] using g.rows.sorted⟩⟩

theorem classes_keeping (g : CouplingGraph) (keep : CouplingEdge → Bool) :
    (g.keeping keep).classes = g.classes := by
  simp [classes, keeping, Table.keys, Function.comp_def]

theorem stored?_keeping (g : CouplingGraph) (keep : CouplingEdge → Bool) (a b : ClassName) :
    (g.keeping keep).stored? a b = (g.stored? a b).filter fun weight => keep ⟨a, b, weight⟩ := by
  ext weight
  rw [Option.filter_eq_some_iff, stored?_eq_some_iff, stored?_eq_some_iff]
  constructor
  · rintro ⟨row, hrow, hentry⟩
    obtain ⟨⟨source, old⟩, hold, heq⟩ := List.mem_map.1 hrow
    obtain ⟨rfl, rfl⟩ := Prod.mk.inj heq
    obtain ⟨hentry, hkeep⟩ := List.mem_filter.1 hentry
    exact ⟨⟨old, hold, hentry⟩, hkeep⟩
  · rintro ⟨⟨row, hrow, hentry⟩, hkeep⟩
    exact ⟨_, List.mem_map.2 ⟨(a, row), hrow, rfl⟩, List.mem_filter.2 ⟨hentry, hkeep⟩⟩

/-- Entries of a class for itself, of weight zero or for an unknown class can be left out. -/
theorem alike_keeping {keep : CouplingEdge → Bool}
    (hkeep : ∀ edge : CouplingEdge, edge.source ∈ g.classes → edge.target ∈ g.classes →
      edge.source ≠ edge.target → edge.weight ≠ 0 → keep edge) : g.Alike (g.keeping keep) := by
  have hweight : ∀ x ∈ g.classes, ∀ y ∈ g.classes, x ≠ y →
      g.weight x y = (g.keeping keep).weight x y := by
    intro x hx y hy hne
    rw [weight_eq_getD, weight_eq_getD, stored?_keeping]
    cases hentry : g.stored? x y with
    | none => rfl
    | some weight =>
        by_cases hzero : weight = 0
        · subst hzero
          cases hstays : keep ⟨x, y, 0⟩ <;> simp [Option.filter, hstays]
        · simp [Option.filter, hkeep ⟨x, y, weight⟩ hx hy hne hzero]
  constructor
  · intro x
    rw [classes_keeping]
  · intro x hx y hy hne
    rw [mutualWeight, mutualWeight, hweight x hx y hy hne, hweight y hy x hx hne.symm]

/-- Clustering depends on the classes and on the calls between any two of them in both directions
together: on graphs that agree in these, all series of runs under any rule make the same merges with
the same records, stop for the same reasons and end in the same clusters with the same averages.
So it is the same with every call reversed, and without entries of a class for itself, of weight
zero or for a name that is no class. -/
theorem runs_see_mutual_weights :
    (∀ g h : CouplingGraph, (∀ x, x ∈ g.classes ↔ x ∈ h.classes) →
      (∀ x ∈ g.classes, ∀ y ∈ g.classes, x ≠ y →
        g.weight x y + g.weight y x = h.weight x y + h.weight y x) → g.SameRuns h) ∧
    (∀ edits : List Edit, (ofEdits edits).SameRuns (ofEdits (edits.map .reversed))) ∧
    ∀ (g : CouplingGraph) (keep : CouplingEdge → Bool),
      (∀ edge : CouplingEdge, edge.source ∈ g.classes → edge.target ∈ g.classes →
        edge.source ≠ edge.target → edge.weight ≠ 0 → keep edge) →
      g.SameRuns (g.keeping keep) := by
  refine ⟨?_, ?_, ?_⟩
  · intro g h hclasses hweights
    exact Alike.sameRuns ⟨hclasses, hweights⟩
  · intro edits
    exact (isReverse_ofEdits edits).alike.sameRuns
  · intro g keep hkeep
    exact (alike_keeping hkeep).sameRuns

/-- Three classes, two of which call each other, and entries that clustering does not see. -/
def withStrayEntries : CouplingGraph :=
  ⟨⟨[("A", ⟨[("A", 7), ("B", 2), ("Http", 5)], by decide⟩), ("B", ⟨[("A", 1)], by decide⟩),
    ("C", ⟨[("A", 0)], by decide⟩)], by decide⟩⟩

theorem runs_see_mutual_weights_withStrayEntries :
    let calls := (empty.ensureClass "C").recordCalls "B" "A" 3
    let tidy := withStrayEntries.keeping fun edge =>
      edge.source ≠ edge.target ∧ edge.weight ≠ 0 ∧ edge.target ∈ withStrayEntries.classes
    withStrayEntries.SameRuns calls ∧ withStrayEntries.SameRuns tidy ∧
      tidy.edges = [⟨"A", "B", 2⟩, ⟨"B", "A", 1⟩] := by
  intro calls tidy
  have hclasses : withStrayEntries.classes = calls.classes := by decide +kernel
  have hweights : ∀ x ∈ withStrayEntries.classes, ∀ y ∈ withStrayEntries.classes, x ≠ y →
      withStrayEntries.weight x y + withStrayEntries.weight y x =
        calls.weight x y + calls.weight y x := by
    decide +kernel
  refine ⟨runs_see_mutual_weights.1 _ _ (fun x => by rw [hclasses]) hweights,
    runs_see_mutual_weights.2.2 _ _ ?_, by decide +kernel⟩
  intro edge _ htarget hne hweight
  simp [hne, hweight, htarget]

end CouplingGraph

end ModuleRecovery
