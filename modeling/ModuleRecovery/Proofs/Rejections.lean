import ModuleRecovery.Proofs.InnerWeights
import ModuleRecovery.Proofs.Rounding
import ModuleRecovery.Proofs.Stopping

/-!
What the end of a run at a rejected merge says of the other pairs. The pair is chosen by the calls
between two clusters and judged by the mean over all members of both, so another pair can reach
the minimum. Main statement: it does so only with fewer members or with more calls inside its two
clusters than the rejected pair has; hence never while all clusters are single classes.
-/

namespace ModuleRecovery

namespace Clusters

variable {c : Clusters} {g : CouplingGraph} {a b a' b' : ClassName}

theorem sizeOf_pos (hcohesive : c.IsCohesive g) {key : ClassName} (h : key ∈ c.keys) :
    0 < c.sizeOf key :=
  List.length_pos_of_mem (hcohesive.least key h).1

theorem innerWeight_of_sizeOf_eq_one {key : ClassName} (h : c.sizeOf key = 1) :
    c.innerWeight g key = 0 := by
  obtain ⟨x, hx⟩ := List.length_eq_one_iff.1 h
  simp [innerWeight, CouplingGraph.innerWeight, hx, Finset.filter_singleton]

/-- With no fewer members, no more calls inside and no more calls between, the average is no
greater. -/
theorem mergedAverage_mono (hpart : c.IsPartition g.classSet) (hcohesive : c.IsCohesive g)
    (ha : a ∈ c.keys) (hb : b ∈ c.keys) (hne : a ≠ b)
    (ha' : a' ∈ c.keys) (hb' : b' ∈ c.keys) (hne' : a' ≠ b')
    (hsize : c.sizeOf a + c.sizeOf b ≤ c.sizeOf a' + c.sizeOf b')
    (hinner : c.innerWeight g a' + c.innerWeight g b' ≤ c.innerWeight g a + c.innerWeight g b)
    (hcoupling : c.interCoupling g a' b' ≤ c.interCoupling g a b) :
    c.mergedAverage g a' b' ≤ c.mergedAverage g a b := by
  have hapos := sizeOf_pos hcohesive ha
  have hbpos := sizeOf_pos hcohesive hb
  have hapos' := sizeOf_pos hcohesive ha'
  have hbpos' := sizeOf_pos hcohesive hb'
  rw [hpart.mergedAverage_eq_quotient hne (by omega),
    hpart.mergedAverage_eq_quotient hne' (by omega)]
  apply Binary64.quotient_mono
  · exact Nat.add_le_add hinner hcoupling
  · exact Nat.mul_le_mul hsize (Nat.sub_le_sub_right hsize 1)
  · exact Nat.mul_pos (by omega) (by omega)

end Clusters

namespace Rule

/-- Where module identification ends below its minimum, no two clusters are coupled more strongly
than the rejected pair; two that have at least as many members together, and no more calls inside
them, would stay below the minimum as well; and so would any two if all clusters are single
classes. -/
theorem rejection_bounds_other_merges (g : CouplingGraph) (totalClasses : Nat)
    (minimum : Binary64) (budgets : List (Option Nat)) :
    ∀ r ∈ (Rule.identification totalClasses minimum).runAll g budgets (.singletons g),
      ∀ keep absorb average least, r.stop = .belowThreshold keep absorb average least →
        let c := r.final
        ∀ a ∈ c.keys, ∀ b ∈ c.keys, a ≠ b →
          c.interCoupling g a b ≤ c.interCoupling g keep absorb ∧
          (c.sizeOf keep + c.sizeOf absorb ≤ c.sizeOf a + c.sizeOf b →
            c.innerWeight g a + c.innerWeight g b ≤
              c.innerWeight g keep + c.innerWeight g absorb →
            c.mergedAverage g a b < minimum) ∧
          ((∀ key ∈ c.keys, c.sizeOf key = 1) → c.mergedAverage g a b < minimum) := by
  intro r hr keep absorb average least hstop c a ha b hb hne
  obtain ⟨budget, earlier, before, hreaches, rfl⟩ := Reaches.start.exists_run hr
  obtain ⟨hpart, hcohesive⟩ := ((path_run _ g budget before).reaches hreaches).cohesive
  obtain ⟨⟨_, ⟨⟩⟩, -, -, ⟨coupling, hpair⟩, ⟨hkeep, habsorb, hdistinct⟩, rfl, hlt⟩ :=
    run_stop_eq_belowThreshold_iff.1 hstop
  have hclosest := Clusters.isClosest_of_closestPair hpair
  have hmax : c.interCoupling g a b ≤ c.interCoupling g keep absorb :=
    (hclosest.coupling_max a ha b hb hne).trans_eq hclosest.coupling_eq
  have hdominated (hsize : c.sizeOf keep + c.sizeOf absorb ≤ c.sizeOf a + c.sizeOf b)
      (hinner : c.innerWeight g a + c.innerWeight g b ≤
        c.innerWeight g keep + c.innerWeight g absorb) : c.mergedAverage g a b < minimum := by
    have hle := Clusters.mergedAverage_mono hpart hcohesive hkeep habsorb hdistinct ha hb hne
      hsize hinner hmax
    exact Binary64.lt_of_le_of_lt hle hlt
  refine ⟨hmax, hdominated, ?_⟩
  intro hsingle
  have hinner {key : ClassName} (hkey : key ∈ c.keys) : c.innerWeight g key = 0 :=
    Clusters.innerWeight_of_sizeOf_eq_one (hsingle key hkey)
  apply hdominated
  · rw [hsingle a ha, hsingle b hb, hsingle keep hkeep, hsingle absorb habsorb]
  · rw [hinner ha, hinner hb]
    exact Nat.zero_le _

/-- Three classes that call each other, and a pair with three calls. -/
def triangleAndPair : CouplingGraph :=
  let triangle := ((CouplingGraph.empty.recordCalls "A" "B" 4).recordCalls "A" "C" 2).recordCalls
    "B" "C" 2
  triangle.recordCalls "D" "E" 3

/-- The run ends at the triangle, whose average is below the minimum; the average of the pair is
the minimum. -/
theorem rejection_loses_pair :
    let g := triangleAndPair
    let minimum := Binary64.quotient 3 2
    let r := (Rule.identification g.classCount minimum).run g none (.singletons g)
    r.stop = .belowThreshold "A" "C" (.quotient 8 6) minimum ∧
      "D" ∈ r.final.keys ∧ "E" ∈ r.final.keys ∧ 0 < r.final.interCoupling g "D" "E" ∧
      ¬r.final.mergedAverage g "D" "E" < minimum := by
  decide +kernel

theorem rejection_bounds_other_merges_triangleAndPair :
    let g := triangleAndPair
    let minimum := Binary64.quotient 3 2
    let r := (Rule.identification g.classCount minimum).run g none (.singletons g)
    r.stop = .belowThreshold "A" "C" (.quotient 8 6) minimum ∧
      r.final.interCoupling g "D" "E" ≤ r.final.interCoupling g "A" "C" ∧
      r.final.mergedAverage g "A" "D" < minimum := by
  intro g minimum r
  have hmem : r ∈ (Rule.identification g.classCount minimum).runAll g [none] (.singletons g) :=
    List.mem_singleton.2 rfl
  have hstop : r.stop = .belowThreshold "A" "C" (.quotient 8 6) minimum := by decide +kernel
  have hkeys : r.final.keys = ["A", "C", "D", "E"] := by decide +kernel
  have hbounds := rejection_bounds_other_merges g g.classCount minimum [none] r hmem _ _ _ _ hstop
  have hpair := hbounds "D" (by simp [hkeys]) "E" (by simp [hkeys]) (by decide)
  have hothers := hbounds "A" (by simp [hkeys]) "D" (by simp [hkeys]) (by decide)
  exact ⟨hstop, hpair.1, hothers.2.1 (by decide +kernel) (by decide +kernel)⟩

end Rule

end ModuleRecovery
