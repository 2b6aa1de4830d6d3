import Mathlib.Algebra.BigOperators.Group.Finset.Sigma
import Mathlib.Algebra.GroupWithZero.Nat
import ModuleRecovery.CouplingGraph
import ModuleRecovery.Proofs.Tables

/-!
Coupling graphs that are built call by call. Recording a call adds one to one weight, makes both
of its classes known and leaves the graph clean: every entry is a positive weight between two
different classes. Main statements: a clean graph is known by its classes and its weights between
different ones, and its total weight is the sum of these.
-/

namespace ModuleRecovery

theorem total_eq_sum (counts : List Nat) : total counts = counts.sum := rfl

/-- A sum over the values of a table, taken over any names that hold its keys. -/
theorem Table.sum_values {β : Type} (t : Table β) (f : β → Nat) {names : Finset String}
    (hnames : ∀ key ∈ t.keys, key ∈ names) :
    (t.entries.map fun entry => f entry.2).sum = ∑ key ∈ names, ((t.get? key).map f).getD 0 := by
  have hentries : (t.entries.map fun entry => f entry.2) =
      t.keys.map fun key => ((t.get? key).map f).getD 0 := by
    rw [keys, List.map_map]
    apply List.map_congr_left
    rintro ⟨key, value⟩ hmem
    have hget : t.get? key = some value := get?_eq_some_iff.2 hmem
    simp [hget]
  rw [hentries, ← List.sum_toFinset _ t.keys_nodup]
  apply Finset.sum_subset
  · intro key hkey
    exact hnames key (List.mem_toFinset.1 hkey)
  · intro key _ hkey
    rw [List.mem_toFinset] at hkey
    simp [get?_eq_none_iff.2 hkey]

namespace CouplingGraph

variable {g h : CouplingGraph} {name source target a b x : ClassName}

/-- What stands from one class to another, if anything does. -/
def stored? (g : CouplingGraph) (a b : ClassName) : Option Nat :=
  (g.outgoing? a).bind (·.get? b)

/-- Every entry is a positive weight between two different classes. -/
def IsClean (g : CouplingGraph) : Prop :=
  ∀ a b weight, g.stored? a b = some weight → b ≠ a ∧ weight ≠ 0 ∧ b ∈ g.classes

theorem weight_eq_getD (g : CouplingGraph) (a b : ClassName) :
    g.weight a b = (g.stored? a b).getD 0 := rfl

theorem stored?_eq_some_iff {weight : Nat} :
    g.stored? a b = some weight ↔ ∃ row, (a, row) ∈ g.rows.entries ∧ (b, weight) ∈ row.entries := by
  simp only [stored?, outgoing?, Option.bind_eq_some_iff, Table.get?_eq_some_iff]

theorem mem_classes_of_stored? {weight : Nat} (h : g.stored? a b = some weight) :
    a ∈ g.classes := by
  obtain ⟨row, hrow, -⟩ := Option.bind_eq_some_iff.1 h
  exact Table.mem_keys_iff.2 ⟨row, hrow⟩

theorem IsClean.weight_self (hg : g.IsClean) (a : ClassName) : g.weight a a = 0 := by
  rw [weight_eq_getD]
  cases hentry : g.stored? a a with
  | none => rfl
  | some weight => exact absurd rfl (hg a a weight hentry).1

/-- In a clean graph the weights tell the entries. -/
theorem IsClean.stored?_eq (hg : g.IsClean) (a b : ClassName) :
    g.stored? a b = if g.weight a b = 0 then none else some (g.weight a b) := by
  rw [weight_eq_getD]
  cases hentry : g.stored? a b with
  | none => simp
  | some weight => simp [(hg a b weight hentry).2.1]

theorem IsClean.mem_classes_of_weight (hg : g.IsClean) (h : g.weight a b ≠ 0) :
    a ∈ g.classes ∧ b ∈ g.classes := by
  have hstored : g.stored? a b = some (g.weight a b) := by rw [hg.stored?_eq, if_neg h]
  exact ⟨mem_classes_of_stored? hstored, (hg a b _ hstored).2.2⟩

theorem eq_of_stored? (hclasses : ∀ x, x ∈ g.classes ↔ x ∈ h.classes)
    (hentry : ∀ a b, g.stored? a b = h.stored? a b) : g = h := by
  have hrows : g.rows = h.rows := by
    apply Table.eq_of_mem_keys_iff hclasses
    intro a row row' hg hh
    apply Table.eq_of_get?
    intro b
    simpa [stored?, outgoing?, hg, hh] using hentry a b
  cases g
  cases h
  exact congrArg _ hrows

theorem IsClean.eq_of_weight (hg : g.IsClean) (hh : h.IsClean)
    (hclasses : ∀ x, x ∈ g.classes ↔ x ∈ h.classes)
    (hweight : ∀ a b, a ≠ b → g.weight a b = h.weight a b) : g = h := by
  apply eq_of_stored? hclasses
  intro a b
  have hsame : g.weight a b = h.weight a b := by
    by_cases hne : a = b
    · rw [hne, hg.weight_self, hh.weight_self]
    · exact hweight a b hne
  rw [hg.stored?_eq, hh.stored?_eq, hsame]

/-! ## Building a graph -/

theorem get?_getD_row (g : CouplingGraph) (a b : ClassName) :
    ((g.rows.get? a).getD .empty).get? b = g.stored? a b := by
  rw [stored?, outgoing?]
  cases g.rows.get? a with
  | none => rw [Option.getD_none, Option.bind_none, Table.get?_empty]
  | some row => rw [Option.getD_some, Option.bind_some]

theorem stored?_update_row (g : CouplingGraph) (f : Option (Table Nat) → Table Nat)
    (source a b : ClassName) :
    stored? ⟨g.rows.update source f⟩ a b =
      if a = source then (f (g.rows.get? source)).get? b else g.stored? a b := by
  rw [stored?, outgoing?, Table.get?_update]
  by_cases h : a = source
  · rw [if_pos h, if_pos h]
    rfl
  · rw [if_neg h, if_neg h]
    rfl

theorem mem_classes_ensureClass :
    x ∈ (g.ensureClass name).classes ↔ x = name ∨ x ∈ g.classes :=
  Table.mem_keys_update

theorem stored?_ensureClass (g : CouplingGraph) (name a b : ClassName) :
    (g.ensureClass name).stored? a b = g.stored? a b := by
  rw [ensureClass, Table.insertNew, stored?_update_row, get?_getD_row]
  by_cases h : a = name
  · rw [if_pos h, h]
  · rw [if_neg h]

theorem IsClean.ensureClass (hg : g.IsClean) (name : ClassName) : (g.ensureClass name).IsClean := by
  intro a b weight hentry
  rw [stored?_ensureClass] at hentry
  obtain ⟨hne, hpos, hmem⟩ := hg a b weight hentry
  exact ⟨hne, hpos, mem_classes_ensureClass.2 (Or.inr hmem)⟩

theorem mem_classes_recordCall :
    x ∈ (g.recordCall source target).classes ↔ x = source ∨ x = target ∨ x ∈ g.classes := by
  unfold recordCall
  by_cases h : source = target
  · rw [if_pos h, mem_classes_ensureClass, h]
    simp
  · rw [if_neg h, classes, Table.mem_keys_update]
    change x = source ∨ x ∈ ((g.ensureClass target).ensureClass source).classes ↔ _
    rw [mem_classes_ensureClass, mem_classes_ensureClass]
    simp

theorem stored?_recordCall (g : CouplingGraph) (source target a b : ClassName) :
    (g.recordCall source target).stored? a b =
      if source ≠ target ∧ a = source ∧ b = target then some (g.weight source target + 1)
      else g.stored? a b := by
  unfold recordCall
  by_cases hsame : source = target
  · rw [if_pos hsame, stored?_ensureClass, if_neg (fun h => h.1 hsame)]
  · have hknown (a b : ClassName) :
        ((g.ensureClass target).ensureClass source).stored? a b = g.stored? a b := by
      rw [stored?_ensureClass, stored?_ensureClass]
    rw [if_neg hsame, stored?_update_row, Table.get?_update, get?_getD_row, get?_getD_row, hknown,
      hknown, hknown, weight_eq_getD]
    by_cases ha : a = source
    · by_cases hb : b = target
      · simp [hsame, ha, hb]
      · simp [ha, hb]
    · simp [ha]

theorem weight_recordCall (g : CouplingGraph) (source target a b : ClassName) :
    (g.recordCall source target).weight a b =
      g.weight a b + if source ≠ target ∧ a = source ∧ b = target then 1 else 0 := by
  rw [weight_eq_getD, stored?_recordCall]
  by_cases h : source ≠ target ∧ a = source ∧ b = target
  · rw [if_pos h, if_pos h, h.2.1, h.2.2]
    rfl
  · rw [if_neg h, if_neg h]
    rfl

theorem IsClean.recordCall (hg : g.IsClean) (source target : ClassName) :
    (g.recordCall source target).IsClean := by
  intro a b weight hentry
  rw [stored?_recordCall] at hentry
  rw [mem_classes_recordCall]
  split at hentry
  · rename_i h
    obtain ⟨hne, rfl, rfl⟩ := h
    cases hentry
    exact ⟨Ne.symm hne, Nat.succ_ne_zero _, Or.inr (Or.inl rfl)⟩
  · obtain ⟨hne, hpos, hmem⟩ := hg a b weight hentry
    exact ⟨hne, hpos, Or.inr (Or.inr hmem)⟩

inductive Edit where
  | ensureClass (name : ClassName)
  | recordCall (source target : ClassName)
  deriving DecidableEq, Repr

def edit (g : CouplingGraph) : Edit → CouplingGraph
  | .ensureClass name => g.ensureClass name
  | .recordCall source target => g.recordCall source target

/-- The graph that is built from nothing by some edits. -/
def ofEdits (edits : List Edit) : CouplingGraph := edits.foldl edit .empty

theorem isClean_empty : empty.IsClean := by
  intro a b weight hentry
  cases hentry

theorem IsClean.edit (hg : g.IsClean) (e : Edit) : (g.edit e).IsClean := by
  cases e with
  | ensureClass name => exact hg.ensureClass name
  | recordCall source target => exact hg.recordCall source target

theorem isClean_ofEdits (edits : List Edit) : (ofEdits edits).IsClean := by
  unfold ofEdits
  have hempty := isClean_empty
  generalize empty = g at hempty ⊢
  induction edits generalizing g with
  | nil => exact hempty
  | cons e rest ih => exact ih _ (hempty.edit e)

/-! ## The listed edges -/

theorem mem_edges_iff {edge : CouplingEdge} :
    edge ∈ g.edges ↔ g.weight edge.source edge.target = edge.weight ∧ 0 < edge.weight := by
  have hstored : edge ∈ g.edges ↔
      g.stored? edge.source edge.target = some edge.weight ∧ 0 < edge.weight := by
    rw [stored?_eq_some_iff]
    simp only [edges, List.mem_flatMap, Prod.exists, List.mem_map, List.mem_filter,
      decide_eq_true_eq]
    constructor
    · rintro ⟨source, row, hrow, target, weight, ⟨hentry, hpos⟩, rfl⟩
      exact ⟨⟨row, hrow, hentry⟩, hpos⟩
    · rintro ⟨⟨row, hrow, hentry⟩, hpos⟩
      exact ⟨edge.source, row, hrow, edge.target, edge.weight, ⟨hentry, hpos⟩, rfl⟩
  rw [hstored, weight_eq_getD]
  cases g.stored? edge.source edge.target with
  | none =>
      simp only [Option.getD_none, reduceCtorEq, false_and, false_iff, not_and]
      omega
  | some weight => simp

theorem IsClean.mem_classes_of_mem_edges (hg : g.IsClean) {edge : CouplingEdge}
    (h : edge ∈ g.edges) : edge.source ∈ g.classes ∧ edge.target ∈ g.classes := by
  obtain ⟨hweight, hpos⟩ := mem_edges_iff.1 h
  exact hg.mem_classes_of_weight (hweight ▸ hpos.ne')

/-- The edges come by source and then by target. -/
theorem edges_sorted (g : CouplingGraph) :
    g.edges.Pairwise fun e f =>
      e.source < f.source ∨ e.source = f.source ∧ e.target < f.target := by
  rw [edges, List.pairwise_flatMap]
  constructor
  · rintro ⟨source, row⟩ -
    rw [List.pairwise_map]
    exact (row.sorted.filter _).imp fun hlt => Or.inr ⟨rfl, hlt⟩
  · apply g.rows.sorted.imp
    intro entry entry' hlt e he f hf
    obtain ⟨-, -, rfl⟩ := List.mem_map.1 he
    obtain ⟨-, -, rfl⟩ := List.mem_map.1 hf
    exact Or.inl hlt

theorem mem_isolatedClasses_iff :
    x ∈ g.isolatedClasses ↔
      x ∈ g.classes ∧ ∀ edge ∈ g.edges, edge.source ≠ x ∧ edge.target ≠ x := by
  rw [isolatedClasses, List.mem_filter, List.all_eq_true]
  simp only [decide_eq_true_eq]

theorem isolatedClasses_sorted (g : CouplingGraph) : g.isolatedClasses.Pairwise (· < ·) :=
  g.rows.keys_sorted.filter _

/-- The weights tell the listing of the edges. -/
theorem edges_eq_of_weight (hweight : ∀ a b, g.weight a b = h.weight a b) :
    g.edges = h.edges := by
  let before (e f : CouplingEdge) : Prop :=
    e.source < f.source ∨ e.source = f.source ∧ e.target < f.target
  have hirrefl : Std.Irrefl before := by
    constructor
    rintro e (hlt | ⟨-, hlt⟩)
    · exact String.lt_irrefl _ hlt
    · exact String.lt_irrefl _ hlt
  have hantisymm : Std.Antisymm before := by
    constructor
    rintro e f (hlt | ⟨heq, hlt⟩) (hgt | ⟨heq', hgt⟩)
    · exact absurd hgt (String.lt_asymm hlt)
    · exact absurd (heq' ▸ hlt) (String.lt_irrefl _)
    · exact absurd (heq ▸ hgt) (String.lt_irrefl _)
    · exact absurd hgt (String.lt_asymm hlt)
  apply List.Pairwise.eq_of_mem_iff (r := before) g.edges_sorted h.edges_sorted
  intro edge
  rw [mem_edges_iff, mem_edges_iff, hweight]

/-- The listing of the edges tells the weights. -/
theorem weight_eq_of_edges (hedges : g.edges = h.edges) (a b : ClassName) :
    g.weight a b = h.weight a b := by
  have hiff (weight : Nat) (hpos : 0 < weight) :
      g.weight a b = weight ↔ h.weight a b = weight := by
    have hg : ⟨a, b, weight⟩ ∈ g.edges ↔ g.weight a b = weight ∧ 0 < weight := mem_edges_iff
    have hh : ⟨a, b, weight⟩ ∈ h.edges ↔ h.weight a b = weight ∧ 0 < weight := mem_edges_iff
    rw [hedges, hh, and_iff_left hpos, and_iff_left hpos] at hg
    exact hg.symm
  rcases Nat.eq_zero_or_pos (g.weight a b) with hzero | hpos
  · rcases Nat.eq_zero_or_pos (h.weight a b) with hzero' | hpos
    · rw [hzero, hzero']
    · exact (hiff _ hpos).2 rfl
  · exact ((hiff _ hpos).1 rfl).symm

/-! ## The total weight -/

private theorem sum_filter_pos (counts : List (String × Nat)) :
    ((counts.filter fun entry => 0 < entry.2).map Prod.snd).sum = (counts.map Prod.snd).sum := by
  induction counts with
  | nil => rfl
  | cons entry rest ih =>
      rw [List.filter_cons]
      split
      · rw [List.map_cons, List.map_cons, List.sum_cons, List.sum_cons, ih]
      · rename_i h
        have hzero : entry.2 = 0 := by simpa using h
        rw [ih, List.map_cons, List.sum_cons, hzero, Nat.zero_add]

/-- All calls of a clean graph, counted by their two classes. -/
theorem IsClean.totalWeight_eq_sum (hg : g.IsClean) :
    g.totalWeight = ∑ a ∈ g.classes.toFinset, ∑ b ∈ g.classes.toFinset, g.weight a b := by
  let rowTotal (row : Table Nat) : Nat := (row.entries.map fun entry => id entry.2).sum
  have hrows : g.totalWeight = (g.rows.entries.map fun entry => rowTotal entry.2).sum := by
    simp [totalWeight, total_eq_sum, edges, rowTotal, List.flatMap, List.sum_flatten,
      Function.comp_def, sum_filter_pos]
  rw [hrows, Table.sum_values g.rows rowTotal (fun key hkey => List.mem_toFinset.2 hkey)]
  apply Finset.sum_congr rfl
  intro a _
  cases hrow : g.rows.get? a with
  | none => simp [weight, hrow]
  | some row =>
      have hkeys : ∀ b ∈ row.keys, b ∈ g.classes.toFinset := by
        intro b hb
        obtain ⟨weight, hweight⟩ := Table.mem_keys_iff.1 hb
        have hentry : g.stored? a b = some weight := by simp [stored?, outgoing?, hrow, hweight]
        exact List.mem_toFinset.2 (hg a b weight hentry).2.2
      rw [Option.map_some, Option.getD_some]
      simp only [rowTotal]
      rw [Table.sum_values row id hkeys]
      simp [weight, hrow]

end CouplingGraph

end ModuleRecovery
