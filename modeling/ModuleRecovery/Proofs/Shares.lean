import ModuleRecovery.CallGraph.Samples
import ModuleRecovery.Coupling
import ModuleRecovery.Proofs.CallCounts
import ModuleRecovery.Proofs.Rounding

/-!
Pairwise coupling as a share. The calls from one class to another one are some of the calls
between classes, so their share lies between zero and one. The calls a class makes to itself are
not, and where they are more than the calls between classes their share exceeds one. For two
different classes the share can be told from the coupling graph alone.
-/

namespace ModuleRecovery

namespace CallGraph

variable {g : CallGraph} {a b : ClassName}

theorem pairwiseCoupling_eq_ok (g : CallGraph) (ha : a ≠ "") (hb : b ≠ "") :
    g.pairwiseCoupling a b = .ok (if g.crossClassCalls = [] then .zero
      else .quotient (g.callsBetween a b).length g.crossClassCalls.length) := by
  unfold pairwiseCoupling
  rw [if_neg ha, if_neg hb]
  split <;> rfl

theorem callsBetween_sublist_crossClassCalls (g : CallGraph) (hne : a ≠ b) :
    (g.callsBetween a b).Sublist g.crossClassCalls := by
  apply List.monotone_filter_right
  intro call hcall
  have hclasses : call.callerClass = a ∧ call.calleeClass = b := by simpa using hcall
  simpa [ResolvedCall.crossesClasses, hclasses] using hne

/-- The share is never negative, and zero without calls between classes. Two different classes
have no more calls between them than there are in all; where the counts are in that order the
share is at most one, and where they are not it is above one. -/
theorem pairwiseCoupling_bounds (g : CallGraph) (ha : a ≠ "") (hb : b ≠ "") :
    ∃ share, g.pairwiseCoupling a b = .ok share ∧ .zero ≤ share ∧
      (g.crossClassCalls = [] → share = .zero) ∧
      (a ≠ b → (g.callsBetween a b).length ≤ g.crossClassCalls.length) ∧
      ((g.callsBetween a b).length ≤ g.crossClassCalls.length → share ≤ .ofNat 1) ∧
      (g.crossClassCalls ≠ [] → g.crossClassCalls.length < (g.callsBetween a b).length →
        (g.callsBetween a b).length < 2 ^ 53 → .ofNat 1 < share) := by
  refine ⟨_, g.pairwiseCoupling_eq_ok ha hb, ?_, ?_, ?_, ?_, ?_⟩
  · split
    · decide
    · exact Binary64.zero_le_quotient _ _
  · intro hnone
    rw [if_pos hnone]
  · intro hne
    exact (g.callsBetween_sublist_crossClassCalls hne).length_le
  · intro hle
    split
    · decide +kernel
    · rename_i hsome
      exact Binary64.quotient_le_one hle (List.length_pos_iff.2 hsome)
  · intro hsome hlt hbound
    rw [if_neg hsome]
    exact Binary64.one_lt_quotient (List.length_pos_iff.2 hsome) hlt hbound

/-- A class that calls itself twice and another class once. -/
def inwardPair : CallGraph :=
  Samples.build [("A", ["f"]), ("B", ["g"])] [("A.f", "A.f", 2), ("A.f", "B.g", 1)]

theorem pairwiseCoupling_bounds_inwardPair :
    (∃ share, inwardPair.pairwiseCoupling "A" "B" = .ok share ∧ .zero ≤ share ∧
      share ≤ .ofNat 1) ∧
    ∃ share, inwardPair.pairwiseCoupling "A" "A" = .ok share ∧ .ofNat 1 < share := by
  constructor
  · obtain ⟨share, hshare, hzero, -, hcounts, hone, -⟩ :=
      inwardPair.pairwiseCoupling_bounds (a := "A") (b := "B") (by decide) (by decide)
    exact ⟨share, hshare, hzero, hone (hcounts (by decide))⟩
  · obtain ⟨share, hshare, -, -, -, -, habove⟩ :=
      inwardPair.pairwiseCoupling_bounds (a := "A") (b := "A") (by decide) (by decide)
    have hsome : inwardPair.crossClassCalls ≠ [] := by decide +kernel
    have hlength : (inwardPair.callsBetween "A" "A").length = 2 ∧
        inwardPair.crossClassCalls.length = 1 := by decide +kernel
    exact ⟨share, hshare, habove hsome (by omega) (by omega)⟩

theorem pairwiseCoupling_inwardPair_exceeds_one :
    inwardPair.pairwiseCoupling "A" "A" = .ok (.ofNat 2) ∧
      inwardPair.crossClassCalls.length < (inwardPair.callsBetween "A" "A").length ∧
      ¬ Binary64.ofNat 2 ≤ .ofNat 1 := by
  decide +kernel

/-- The two metrics agree. The share that goes from one class to another one is its weight in the
coupling graph over the total weight there, whether the classes are known or not. An empty name is
refused, the first one before the second. -/
theorem pairwiseCoupling_eq_weights (g : CallGraph) (a b : ClassName) :
    let w := g.couplingGraph
    (a = "" → g.pairwiseCoupling a b = .error ⟨.first⟩) ∧
      (a ≠ "" → b = "" → g.pairwiseCoupling a b = .error ⟨.second⟩) ∧
      (a ≠ "" → b ≠ "" → a ≠ b →
        g.pairwiseCoupling a b =
          .ok (if w.totalWeight = 0 then .zero else .quotient (w.weight a b) w.totalWeight)) := by
  intro w
  refine ⟨?_, ?_, ?_⟩
  · intro ha
    simp [pairwiseCoupling, ha]
  · intro ha hb
    simp [pairwiseCoupling, ha, hb]
  · intro ha hb hne
    have htotal : w.totalWeight = g.crossClassCalls.length := g.totalWeight_couplingGraph
    have hweight : w.weight a b = (g.callsBetween a b).length := g.weight_couplingGraph hne
    rw [g.pairwiseCoupling_eq_ok ha hb, htotal, hweight]
    simp only [List.length_eq_zero_iff]

theorem pairwiseCoupling_eq_weights_layeredShop :
    let g := Samples.layeredShop
    g.pairwiseCoupling "" "" = .error ⟨.first⟩ ∧
      g.pairwiseCoupling "Billing" "" = .error ⟨.second⟩ ∧
      g.pairwiseCoupling "Billing" "PaymentGateway" = .ok (.quotient 5 20) ∧
      g.pairwiseCoupling "Billing" "Http" = .ok (.quotient 0 20) := by
  intro g
  have hweights : g.couplingGraph.weight "Billing" "PaymentGateway" = 5 ∧
      g.couplingGraph.weight "Billing" "Http" = 0 ∧ g.couplingGraph.totalWeight = 20 := by
    decide +kernel
  obtain ⟨hpayment, hhttp, htotal⟩ := hweights
  have hshare := (g.pairwiseCoupling_eq_weights "Billing" "PaymentGateway").2.2
    (by decide) (by decide) (by decide)
  have hnone := (g.pairwiseCoupling_eq_weights "Billing" "Http").2.2
    (by decide) (by decide) (by decide)
  refine ⟨(g.pairwiseCoupling_eq_weights "" "").1 rfl,
    (g.pairwiseCoupling_eq_weights "Billing" "").2.1 (by decide) rfl, ?_, ?_⟩
  · simpa [hpayment, htotal] using hshare
  · simpa [hhttp, htotal] using hnone

end CallGraph

end ModuleRecovery
