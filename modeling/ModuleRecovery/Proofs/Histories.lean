import Mathlib.Algebra.BigOperators.Group.List.Lemmas
import ModuleRecovery.Proofs.CouplingGraphs

/-!
Coupling graphs and the edits that built them. Each edit makes the classes known that it names, and
a call between two different classes adds one to their weight; a call within a class adds nothing.
Main statement: what a graph lists and sums up can be told from its edits in any order, and it is
the only graph of which all this is true.
-/

namespace ModuleRecovery

/-- The call that adds to the weight of an edge. -/
def CouplingEdge.call (edge : CouplingEdge) : CouplingGraph.Edit :=
  .recordCall edge.source edge.target

namespace CouplingGraph

variable {g h : CouplingGraph} {e : Edit} {edits : List Edit} {a b x : ClassName}

/-- The classes that an edit names. -/
def Edit.names : Edit → List ClassName
  | .ensureClass name => [name]
  | .recordCall source target => [source, target]

/-- Whether an edit is a call between two different classes. -/
def Edit.crosses : Edit → Bool
  | .ensureClass _ => false
  | .recordCall source target => source ≠ target

theorem mem_crossing_iff :
    .recordCall a b ∈ edits.filter Edit.crosses ↔ a ≠ b ∧ .recordCall a b ∈ edits := by
  rw [List.mem_filter, Edit.crosses, decide_eq_true_eq, and_comm]

/-! ## What an edit does -/

theorem mem_classes_edit : x ∈ (g.edit e).classes ↔ x ∈ e.names ∨ x ∈ g.classes := by
  cases e with
  | ensureClass name => simp [edit, Edit.names, mem_classes_ensureClass]
  | recordCall source target => simp [edit, Edit.names, mem_classes_recordCall, or_assoc]

theorem weight_edit (g : CouplingGraph) (e : Edit) (hne : a ≠ b) :
    (g.edit e).weight a b = g.weight a b + if e == .recordCall a b then 1 else 0 := by
  cases e with
  | ensureClass name =>
      rw [edit, weight_eq_getD, stored?_ensureClass, weight_eq_getD]
      simp
  | recordCall source target =>
      have hcall : (source ≠ target ∧ a = source ∧ b = target) ↔
          Edit.recordCall source target = .recordCall a b := by
        rw [Edit.recordCall.injEq]
        constructor
        · rintro ⟨-, rfl, rfl⟩
          exact ⟨rfl, rfl⟩
        · rintro ⟨rfl, rfl⟩
          exact ⟨hne, rfl, rfl⟩
      rw [edit, weight_recordCall]
      simp only [hcall, beq_iff_eq]

/-! ## What all edits do -/

theorem mem_classes_ofEdits : x ∈ (ofEdits edits).classes ↔ ∃ e ∈ edits, x ∈ e.names := by
  have hedits (g : CouplingGraph) :
      x ∈ (edits.foldl edit g).classes ↔ (∃ e ∈ edits, x ∈ e.names) ∨ x ∈ g.classes := by
    induction edits generalizing g with
    | nil => simp
    | cons e rest ih =>
        rw [List.foldl_cons, ih, mem_classes_edit, List.exists_mem_cons_iff, or_assoc, or_left_comm]
  rw [ofEdits, hedits]
  exact or_iff_left List.not_mem_nil

/-- The weight between two classes is the number of calls from the one to the other. -/
theorem weight_ofEdits (edits : List Edit) (hne : a ≠ b) :
    (ofEdits edits).weight a b = edits.count (.recordCall a b) := by
  have hedits (g : CouplingGraph) :
      (edits.foldl edit g).weight a b = g.weight a b + edits.count (.recordCall a b) := by
    induction edits generalizing g with
    | nil => rfl
    | cons e rest ih =>
        rw [List.foldl_cons, ih, weight_edit g e hne, List.count_cons]
        omega
  rw [ofEdits, hedits]
  exact Nat.zero_add _

theorem weight_ofEdits_pos_iff :
    0 < (ofEdits edits).weight a b ↔ a ≠ b ∧ .recordCall a b ∈ edits := by
  by_cases hne : a = b
  · subst hne
    simp [(isClean_ofEdits edits).weight_self a]
  · rw [weight_ofEdits edits hne, List.count_pos_iff, and_iff_right hne]

/-! ## The edges and their calls -/

theorem nodup_map_call (g : CouplingGraph) : (g.edges.map CouplingEdge.call).Nodup := by
  rw [List.Nodup, List.pairwise_map]
  apply g.edges_sorted.imp
  rintro edge edge' (hlt | ⟨-, hlt⟩) heq
  · exact String.lt_irrefl _ ((Edit.recordCall.inj heq).1 ▸ hlt)
  · exact String.lt_irrefl _ ((Edit.recordCall.inj heq).2 ▸ hlt)

theorem mem_map_call_iff : .recordCall a b ∈ g.edges.map CouplingEdge.call ↔ 0 < g.weight a b := by
  rw [List.mem_map]
  constructor
  · rintro ⟨edge, hedge, heq⟩
    obtain ⟨rfl, rfl⟩ := Edit.recordCall.inj heq
    obtain ⟨hweight, hpos⟩ := mem_edges_iff.1 hedge
    rwa [hweight]
  · intro hpos
    exact ⟨⟨a, b, g.weight a b⟩, mem_edges_iff.2 ⟨rfl, hpos⟩, rfl⟩

/-- There is an edge for each different call between classes. -/
theorem map_call_perm_dedup (edits : List Edit) :
    ((ofEdits edits).edges.map CouplingEdge.call).Perm (edits.filter Edit.crosses).dedup := by
  apply (List.perm_ext_iff_of_nodup (nodup_map_call _) (List.nodup_dedup _)).2
  intro e
  rw [List.mem_dedup]
  cases e with
  | ensureClass name => simp [CouplingEdge.call, Edit.crosses]
  | recordCall a b => rw [mem_map_call_iff, weight_ofEdits_pos_iff, mem_crossing_iff]

theorem totalWeight_ofEdits (edits : List Edit) :
    (ofEdits edits).totalWeight = edits.countP Edit.crosses := by
  let calls := edits.filter Edit.crosses
  have hcount : ∀ edge ∈ (ofEdits edits).edges, edge.weight = calls.count edge.call := by
    intro edge hedge
    obtain ⟨hweight, hpos⟩ := mem_edges_iff.1 hedge
    obtain ⟨hne, -⟩ := weight_ofEdits_pos_iff.1 (hweight ▸ hpos)
    have hcrosses : edge.call.crosses = true := decide_eq_true hne
    rw [List.count_filter hcrosses, ← hweight, weight_ofEdits edits hne]
    rfl
  calc (ofEdits edits).totalWeight
      = (((ofEdits edits).edges.map CouplingEdge.call).map calls.count).sum := by
        rw [totalWeight, total_eq_sum, List.map_map, List.map_congr_left hcount]
        rfl
    _ = (calls.dedup.map calls.count).sum := ((map_call_perm_dedup edits).map _).sum_eq
    _ = calls.length := List.sum_map_count_dedup_eq_length calls
    _ = edits.countP Edit.crosses := List.countP_eq_length_filter.symm

theorem edgeCount_ofEdits (edits : List Edit) :
    (ofEdits edits).edgeCount = (edits.filter Edit.crosses).toFinset.card := by
  rw [List.card_toFinset, ← (map_call_perm_dedup edits).length_eq, List.length_map, edgeCount]

theorem mem_isolatedClasses_iff_weight :
    x ∈ g.isolatedClasses ↔ x ∈ g.classes ∧ ∀ y, ¬0 < g.weight x y ∧ ¬0 < g.weight y x := by
  rw [mem_isolatedClasses_iff]
  refine and_congr_right fun _ => ⟨?_, ?_⟩
  · intro hedges y
    constructor
    · intro hpos
      exact (hedges ⟨x, y, _⟩ (mem_edges_iff.2 ⟨rfl, hpos⟩)).1 rfl
    · intro hpos
      exact (hedges ⟨y, x, _⟩ (mem_edges_iff.2 ⟨rfl, hpos⟩)).2 rfl
  · intro hweight edge hedge
    obtain ⟨heq, hpos⟩ := mem_edges_iff.1 hedge
    rw [← heq] at hpos
    constructor
    · rintro rfl
      exact (hweight edge.target).1 hpos
    · rintro rfl
      exact (hweight edge.source).2 hpos

/-! ## Graphs and their histories -/

/-- The graph says of itself what can be told from the edits that built it. -/
structure Recounts (g : CouplingGraph) (edits : List Edit) : Prop where
  mem_classes_iff : ∀ x, x ∈ g.classes ↔ ∃ e ∈ edits, x ∈ e.names
  weight_eq : ∀ x y, x ≠ y → g.weight x y = edits.count (.recordCall x y)
  weight_self : ∀ x, g.weight x x = 0
  isClean : ∀ a b weight, g.stored? a b = some weight → b ≠ a ∧ weight ≠ 0 ∧ b ∈ g.classes
  edges_sorted : g.edges.Pairwise fun e f =>
    e.source < f.source ∨ e.source = f.source ∧ e.target < f.target
  mem_edges_iff : ∀ edge : CouplingEdge,
    edge ∈ g.edges ↔ g.weight edge.source edge.target = edge.weight ∧ 0 < edge.weight
  totalWeight_eq : g.totalWeight = edits.countP Edit.crosses
  edgeCount_eq : g.edgeCount = (edits.filter Edit.crosses).toFinset.card
  isolatedClasses_sorted : g.isolatedClasses.Pairwise (· < ·)
  mem_isolatedClasses_iff : ∀ x, x ∈ g.isolatedClasses ↔
    x ∈ g.classes ∧ ∀ y, y ≠ x → .recordCall x y ∉ edits ∧ .recordCall y x ∉ edits

theorem recounts_ofEdits (edits : List Edit) : (ofEdits edits).Recounts edits where
  mem_classes_iff := fun x => mem_classes_ofEdits
  weight_eq := fun x y hne => weight_ofEdits edits hne
  weight_self := (isClean_ofEdits edits).weight_self
  isClean := isClean_ofEdits edits
  edges_sorted := edges_sorted _
  mem_edges_iff := fun edge => mem_edges_iff
  totalWeight_eq := totalWeight_ofEdits edits
  edgeCount_eq := edgeCount_ofEdits edits
  isolatedClasses_sorted := isolatedClasses_sorted _
  mem_isolatedClasses_iff := by
    intro x
    rw [mem_isolatedClasses_iff_weight]
    refine and_congr_right fun _ => forall_congr' fun y => ?_
    rw [weight_ofEdits_pos_iff, weight_ofEdits_pos_iff, not_and, not_and, ne_comm (a := x)]
    exact imp_and.symm

theorem Recounts.eq (hg : g.Recounts edits) (hh : h.Recounts edits) : g = h := by
  apply IsClean.eq_of_weight hg.isClean hh.isClean
  · intro x
    rw [hg.mem_classes_iff, hh.mem_classes_iff]
  · intro x y hne
    rw [hg.weight_eq x y hne, hh.weight_eq x y hne]

/-- Everything that is told of the edits is a matter of which they are and how often. -/
theorem Recounts.perm {other : List Edit} (hg : g.Recounts edits) (hperm : other.Perm edits) :
    g.Recounts other where
  mem_classes_iff := by
    intro x
    rw [hg.mem_classes_iff]
    simp only [hperm.mem_iff]
  weight_eq := by
    intro x y hne
    rw [hg.weight_eq x y hne, hperm.count_eq]
  weight_self := hg.weight_self
  isClean := hg.isClean
  edges_sorted := hg.edges_sorted
  mem_edges_iff := hg.mem_edges_iff
  totalWeight_eq := by rw [hg.totalWeight_eq, hperm.countP_eq]
  edgeCount_eq := by
    rw [hg.edgeCount_eq, List.toFinset_eq_of_perm _ _ (hperm.filter Edit.crosses)]
  isolatedClasses_sorted := hg.isolatedClasses_sorted
  mem_isolatedClasses_iff := by
    intro x
    rw [hg.mem_isolatedClasses_iff]
    simp only [hperm.mem_iff]

/-- The graph that some edits build from nothing is the only one that recounts them: its classes are
those that they name, each weight between different classes is the number of calls from the one to
the other, nothing else is stored, and the edges, both totals and the isolated classes follow from
the calls between classes. The order of the edits does not matter. -/
theorem ofEdits_exact (edits : List Edit) :
    (∀ g : CouplingGraph, g = ofEdits edits ↔ g.Recounts edits) ∧
      ∀ other : List Edit, other.Perm edits → ofEdits other = ofEdits edits := by
  constructor
  · intro g
    constructor
    · rintro rfl
      exact recounts_ofEdits edits
    · intro h
      exact h.eq (recounts_ofEdits edits)
  · intro other hperm
    exact (recounts_ofEdits other).eq ((recounts_ofEdits edits).perm hperm)

/-- One class calls only itself, another one is named twice without a call. -/
theorem ofEdits_exact_selfCall :
    let edits : List Edit := [.recordCall "B" "A", .ensureClass "C", .recordCall "D" "D",
      .recordCall "A" "B", .ensureClass "C", .recordCall "B" "A"]
    let g := ofEdits edits
    g.weight "B" "A" = 2 ∧ g.totalWeight = 3 ∧ g.edgeCount = 2 ∧ "D" ∈ g.isolatedClasses ∧
      ofEdits edits.reverse = g := by
  intro edits g
  obtain ⟨hexact, hperm⟩ := ofEdits_exact edits
  have hrecounts : g.Recounts edits := (hexact g).1 rfl
  refine ⟨?_, ?_, ?_, ?_, hperm _ edits.reverse_perm⟩
  · rw [hrecounts.weight_eq "B" "A" (by decide)]
    decide
  · rw [hrecounts.totalWeight_eq]
    decide
  · rw [hrecounts.edgeCount_eq]
    decide
  · rw [hrecounts.mem_isolatedClasses_iff, hrecounts.mem_classes_iff]
    refine ⟨⟨.recordCall "D" "D", by decide, by decide⟩, ?_⟩
    intro y hne
    simp [edits, hne]

end CouplingGraph

end ModuleRecovery
