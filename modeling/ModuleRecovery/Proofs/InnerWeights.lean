import ModuleRecovery.Proofs.Conservation

/-!
The calls between different members of one set of classes, and their mean. Listed by ordered pairs
they add up to a sum over the set, so their order does not matter, and each call counts in one
direction only. Main statements: twice that sum counts every pair in both directions; and two
disjoint sets together have the calls within each of them and those from either to the other.
-/

namespace ModuleRecovery

namespace CouplingGraph

variable {g : CouplingGraph} {s t : Finset ClassName} {members : List ClassName}

/-- The calls between different classes of a set. -/
def innerWeight (g : CouplingGraph) (s : Finset ClassName) : Nat :=
  ∑ x ∈ s, ∑ y ∈ s with x ≠ y, g.weight x y

theorem total_innerWeights (g : CouplingGraph) (h : members.Nodup) :
    total (g.innerWeights members) = g.innerWeight members.toFinset := by
  have hrow (x : ClassName) :
      ((members.filter fun y => x ≠ y).map fun y => g.weight x y).sum =
        ∑ y ∈ members.toFinset with x ≠ y, g.weight x y := by
    have hmembers : members.toFinset.filter (fun y => x ≠ y) =
        (members.filter fun y => x ≠ y).toFinset := by
      simp [List.toFinset_filter]
    rw [hmembers, List.sum_toFinset _ (h.filter _)]
  rw [innerWeight, List.sum_toFinset _ h, innerWeights, total_eq_sum, List.flatMap,
    List.sum_flatten, List.map_map]
  congr 1
  apply List.map_congr_left
  intro x _
  exact hrow x

/-- There is one weight for each ordered pair of different members. -/
theorem length_innerWeights (g : CouplingGraph) (h : members.Nodup) :
    (g.innerWeights members).length = members.length * (members.length - 1) := by
  have hrow : ∀ x ∈ members, (members.filter fun y => x ≠ y).length = members.length - 1 := by
    intro x hx
    have hfilter : members.erase x = members.filter fun y => x ≠ y := by
      rw [h.erase_eq_filter]
      apply List.filter_congr
      intro y _
      by_cases heq : x = y
      · simp [heq]
      · simp [heq, Ne.symm heq]
    rw [← hfilter, List.length_erase_of_mem hx]
  rw [innerWeights, List.length_flatMap]
  simp only [List.length_map]
  rw [List.map_congr_left hrow, List.map_const', List.sum_replicate, smul_eq_mul]

/-- The average coupling in terms of a sum and a number of pairs. -/
theorem averageCoupling_eq (g : CouplingGraph) (h : members.Nodup) :
    g.averageCoupling members =
      if members.length ≤ 1 then .zero
      else .quotient (g.innerWeight members.toFinset) (members.length * (members.length - 1)) := by
  have hnone : members.length * (members.length - 1) = 0 ↔ members.length ≤ 1 := by
    rw [Nat.mul_eq_zero]
    omega
  simp only [averageCoupling, g.length_innerWeights h, g.total_innerWeights h, hnone]

theorem two_mul_innerWeight (g : CouplingGraph) (s : Finset ClassName) :
    2 * g.innerWeight s = ∑ x ∈ s, ∑ y ∈ s with x ≠ y, g.mutualWeight x y := by
  have hswap : g.innerWeight s = ∑ x ∈ s, ∑ y ∈ s with x ≠ y, g.weight y x := by
    simp only [innerWeight, Finset.sum_filter]
    rw [Finset.sum_comm]
    simp only [ne_comm]
  calc
    2 * g.innerWeight s = g.innerWeight s + ∑ x ∈ s, ∑ y ∈ s with x ≠ y, g.weight y x := by
      rw [← hswap, Nat.two_mul]
    _ = ∑ x ∈ s, ∑ y ∈ s with x ≠ y, g.mutualWeight x y := by
      simp only [innerWeight, mutualWeight, Finset.sum_add_distrib]

theorem innerWeight_union (g : CouplingGraph) (h : Disjoint s t) :
    g.innerWeight (s ∪ t) =
      g.innerWeight s + g.innerWeight t + (g.weightBetween s t + g.weightBetween t s) := by
  have hne {x y : ClassName} (hx : x ∈ s) (hy : y ∈ t) : x ≠ y :=
    fun heq => Finset.disjoint_left.1 h hx (heq ▸ hy)
  have hacross {u v : Finset ClassName} (huv : ∀ x ∈ u, ∀ y ∈ v, x ≠ y) :
      ∑ x ∈ u, ∑ y ∈ v with x ≠ y, g.weight x y = g.weightBetween u v := by
    apply Finset.sum_congr rfl
    intro x hx
    rw [Finset.filter_true_of_mem (huv x hx)]
  have hst := hacross fun x hx y hy => hne hx hy
  have hts := hacross fun x hx y hy => (hne hy hx).symm
  have hdisjoint (x : ClassName) : Disjoint (s.filter (x ≠ ·)) (t.filter (x ≠ ·)) :=
    Finset.disjoint_filter_filter h
  simp only [innerWeight, Finset.sum_union h, Finset.filter_union, Finset.sum_union (hdisjoint _),
    Finset.sum_add_distrib, hst, hts]
  omega

end CouplingGraph

namespace Clusters

variable {c : Clusters} {g : CouplingGraph} {classes : Set ClassName} {a b : ClassName}

/-- The calls between different members of a cluster. -/
def innerWeight (c : Clusters) (g : CouplingGraph) (key : ClassName) : Nat :=
  g.innerWeight (c.membersOf key).toFinset

theorem union_nodup (c : Clusters) (a b : ClassName) : (c.union a b).toList.Nodup := by
  rw [← membersOf_join_keep]
  exact (c.join a b).membersOf_nodup a

theorem toFinset_union (c : Clusters) (a b : ClassName) :
    (c.union a b).toList.toFinset = (c.membersOf a).toFinset ∪ (c.membersOf b).toFinset := by
  rw [← membersOf_join_keep, toFinset_membersOf_join_keep]

theorem IsPartition.length_union (h : c.IsPartition classes) (hne : a ≠ b) :
    (c.union a b).toList.length = c.sizeOf a + c.sizeOf b := by
  rw [← List.toFinset_card_of_nodup (c.union_nodup a b), toFinset_union,
    Finset.card_union_of_disjoint (h.disjoint_members hne), ← sizeOf_eq_card, ← sizeOf_eq_card]

/-- Two clusters together have the calls within each of them and those between them. -/
theorem IsPartition.innerWeight_union (h : c.IsPartition classes) (hne : a ≠ b) :
    g.innerWeight (c.union a b).toList.toFinset =
      c.innerWeight g a + c.innerWeight g b + c.interCoupling g a b := by
  rw [toFinset_union, g.innerWeight_union (h.disjoint_members hne),
    interCoupling_eq_weightBetween]
  rfl

/-- The average that two clusters would have together. -/
theorem IsPartition.mergedAverage_eq_quotient (h : c.IsPartition classes) (hne : a ≠ b)
    (hmany : 1 < c.sizeOf a + c.sizeOf b) :
    c.mergedAverage g a b =
      .quotient (c.innerWeight g a + c.innerWeight g b + c.interCoupling g a b)
        ((c.sizeOf a + c.sizeOf b) * (c.sizeOf a + c.sizeOf b - 1)) := by
  rw [mergedAverage, g.averageCoupling_eq (c.union_nodup a b), h.length_union hne,
    h.innerWeight_union hne, if_neg hmany.not_ge]

end Clusters

end ModuleRecovery
