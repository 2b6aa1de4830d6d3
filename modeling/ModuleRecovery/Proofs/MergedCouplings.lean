import ModuleRecovery.Proofs.Averages
import ModuleRecovery.Proofs.InnerWeights

/-!
Couplings and averages after a merge, in terms of those before it. The calls of a merged cluster
with another one are those of its two parts, and all other couplings stay. Main statement: in
clusters that share no class, a merge changes the couplings of its own cluster only, by one sum
each, and the average after it follows from the calls inside and between the two parts; so none of
them has to be counted anew.
-/

namespace ModuleRecovery

namespace Clusters

variable {c : Clusters} {g : CouplingGraph} {classes : Set ClassName} {keep absorb a b : ClassName}

/-- No cluster is empty, and no two of them share a class. -/
structure IsSeparate (c : Clusters) : Prop where
  nonempty : ∀ key ∈ c.keys, c.membersOf key ≠ []
  disjoint : ∀ a ∈ c.keys, ∀ b ∈ c.keys, a ≠ b → ∀ x ∈ c.membersOf a, x ∉ c.membersOf b

theorem IsSeparate.isPartition (h : c.IsSeparate) :
    c.IsPartition {x | ∃ key, x ∈ c.memberSet key} where
  mem_iff := fun _ => Iff.rfl
  unique := by
    intro x a b ha hb
    by_contra hne
    exact h.disjoint a (mem_keys_of_mem ha) b (mem_keys_of_mem hb) hne x ha hb

theorem IsSeparate.sizeOf_pos (h : c.IsSeparate) {key : ClassName} (hkey : key ∈ c.keys) :
    0 < c.sizeOf key :=
  List.length_pos_of_ne_nil (h.nonempty key hkey)

/-! ## Couplings after a merge -/

theorem IsPartition.sizeOf_join_keep (h : c.IsPartition classes) (hne : keep ≠ absorb) :
    (c.join keep absorb).sizeOf keep = c.sizeOf keep + c.sizeOf absorb := by
  rw [Clusters.sizeOf_join_keep, Finset.card_union_of_disjoint (h.disjoint_members hne),
    ← sizeOf_eq_card, ← sizeOf_eq_card]

/-- A merged cluster has the couplings of both its parts. -/
theorem IsPartition.interCoupling_join_keep (h : c.IsPartition classes) (hne : keep ≠ absorb)
    (hkeep : b ≠ keep) (habsorb : b ≠ absorb) :
    (c.join keep absorb).interCoupling g keep b =
      c.interCoupling g keep b + c.interCoupling g absorb b := by
  rw [interCoupling_eq_sum, toFinset_membersOf_join_keep, membersOf_join_of_ne hkeep habsorb,
    Finset.sum_union (h.disjoint_members hne), ← interCoupling_eq_sum, ← interCoupling_eq_sum]

/-- A merge changes no coupling between two other clusters. -/
theorem interCoupling_join_of_ne (hakeep : a ≠ keep) (haabsorb : a ≠ absorb) (hbkeep : b ≠ keep)
    (hbabsorb : b ≠ absorb) :
    (c.join keep absorb).interCoupling g a b = c.interCoupling g a b := by
  simp only [interCoupling, membersOf_join_of_ne hakeep haabsorb,
    membersOf_join_of_ne hbkeep hbabsorb]

/-- In clusters that share no class, couplings and averages can be kept up from merge to merge: the
coupling is the same from both sides; the merged cluster has with any other one the couplings of
both its parts; no other coupling changes; and the mean foreseen for the merge, which is the mean
after it, is that of the calls within the parts and those between them. -/
theorem merge_adds_couplings {c : Clusters} (g : CouplingGraph) {keep absorb : ClassName}
    (hc : c.IsSeparate) (hkeep : keep ∈ c.keys) (habsorb : absorb ∈ c.keys)
    (hne : keep ≠ absorb) :
    (∀ a b, c.interCoupling g a b = c.interCoupling g b a) ∧
    ∃ merged, c.merge keep absorb = .ok (c.sizeOf keep + c.sizeOf absorb, merged) ∧
      (∀ b ∈ merged.keys, b ≠ keep →
        merged.interCoupling g keep b =
          c.interCoupling g keep b + c.interCoupling g absorb b) ∧
      (∀ a b, a ≠ keep → a ≠ absorb → b ≠ keep → b ≠ absorb →
        merged.interCoupling g a b = c.interCoupling g a b) ∧
      let size := c.sizeOf keep + c.sizeOf absorb
      let mean := Binary64.quotient
        (c.innerWeight g keep + c.innerWeight g absorb + c.interCoupling g keep absorb)
        (size * (size - 1))
      c.mergedAverage g keep absorb = mean ∧ merged.average g keep = mean := by
  have hpart := hc.isPartition
  have hmany : 1 < c.sizeOf keep + c.sizeOf absorb := by
    have hkeepPos := hc.sizeOf_pos hkeep
    have habsorbPos := hc.sizeOf_pos habsorb
    omega
  have hmean := hpart.mergedAverage_eq_quotient (g := g) hne hmany
  refine ⟨c.interCoupling_comm g, c.join keep absorb, ?_, ?_, ?_, hmean, ?_⟩
  · rw [merge_eq_ok hkeep habsorb hne, hpart.sizeOf_join_keep hne]
  · intro b hb hbkeep
    obtain ⟨-, hbabsorb⟩ := (mem_keys_join hkeep hne).1 hb
    exact hpart.interCoupling_join_keep hne hbkeep hbabsorb
  · intro a b hakeep haabsorb hbkeep hbabsorb
    exact interCoupling_join_of_ne hakeep haabsorb hbkeep hbabsorb
  · exact (c.average_join_keep g keep absorb).trans hmean

/-- More calls go from one part to the other than back, and both parts have calls inside. -/
theorem merge_adds_couplings_asymmetric :
    let c : Clusters := ⟨.ofList [("A", .ofList ["A", "B"]), ("C", .ofList ["C", "D"]),
      ("E", .ofList ["E"]), ("F", .ofList ["F"])]⟩
    let g : CouplingGraph := ⟨.ofList [("A", .ofList [("B", 5), ("C", 3), ("E", 2)]),
      ("D", .ofList [("B", 1), ("C", 4)]), ("E", .ofList [("C", 7), ("F", 6)])]⟩
    c.IsSeparate ∧ c.interCoupling g "A" "C" = 4 ∧
      ∃ merged, c.merge "A" "C" = .ok (4, merged) ∧
        merged.interCoupling g "A" "E" = 2 + 7 ∧ merged.interCoupling g "E" "F" = 6 ∧
        c.mergedAverage g "A" "C" = .quotient (5 + 4 + 4) 12 ∧
        merged.average g "A" = .quotient (5 + 4 + 4) 12 := by
  intro c g
  have hseparate : c.IsSeparate := ⟨by decide +kernel, by decide +kernel⟩
  have hkeep : "A" ∈ c.keys := by decide +kernel
  have habsorb : "C" ∈ c.keys := by decide +kernel
  obtain ⟨-, merged, hmerge, hsum, hothers, hforeseen, hmean⟩ :=
    merge_adds_couplings g hseparate hkeep habsorb (by decide)
  have hmerged : merged = c.join "A" "C" := by
    rw [merge_eq_ok hkeep habsorb (by decide)] at hmerge
    cases hmerge
    rfl
  have hE : "E" ∈ merged.keys := by
    rw [hmerged]
    decide +kernel
  exact ⟨hseparate, by decide +kernel, merged, hmerge, hsum "E" hE (by decide),
    hothers "E" "F" (by decide) (by decide) (by decide) (by decide), hforeseen, hmean⟩

end Clusters

end ModuleRecovery
