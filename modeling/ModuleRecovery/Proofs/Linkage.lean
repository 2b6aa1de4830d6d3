import Mathlib.Algebra.BigOperators.Group.Finset.Sigma
import Mathlib.Algebra.GroupWithZero.Nat
import Mathlib.Data.String.Basic
import ModuleRecovery.Linkage
import ModuleRecovery.Proofs.Clusters
import ModuleRecovery.Proofs.CouplingGraphs

/-!
What the choice of the next merge means. Main statement: the chosen pair is, of the pairs of
live clusters that are most strongly coupled and coupled at all, the first in key order; and
there is none exactly when no two clusters are coupled.
-/

namespace ModuleRecovery

theorem CouplingGraph.mutualWeight_comm (g : CouplingGraph) (a b : ClassName) :
    g.mutualWeight a b = g.mutualWeight b a :=
  Nat.add_comm _ _

/-! ## Pairs in order -/

theorem mem_pairsInOrder_iff {l : List String} (h : l.Pairwise (· < ·)) {a b : String} :
    (a, b) ∈ pairsInOrder l ↔ a ∈ l ∧ b ∈ l ∧ a < b := by
  constructor
  · exact mem_pairsInOrder h
  · intro ⟨ha, hb, hlt⟩
    induction l with
    | nil => cases ha
    | cons x rest ih =>
        obtain ⟨hx, hrest⟩ := List.pairwise_cons.1 h
        simp only [pairsInOrder, List.mem_append, List.mem_map, Prod.mk.injEq]
        rcases List.mem_cons.1 ha with rfl | harest
        · rcases List.mem_cons.1 hb with rfl | hbrest
          · exact absurd hlt (lt_irrefl b)
          · exact Or.inl ⟨b, hbrest, rfl, rfl⟩
        · rcases List.mem_cons.1 hb with rfl | hbrest
          · exact absurd hlt (lt_asymm (hx a harest))
          · exact Or.inr (ih hrest harest hbrest)

/-- The pairs come by the first and then by the second. -/
theorem pairsInOrder_sorted {l : List String} (h : l.Pairwise (· < ·)) :
    (pairsInOrder l).Pairwise fun p q => p.1 < q.1 ∨ p.1 = q.1 ∧ p.2 < q.2 := by
  induction l with
  | nil => exact List.Pairwise.nil
  | cons x rest ih =>
      obtain ⟨hx, hrest⟩ := List.pairwise_cons.1 h
      rw [pairsInOrder, List.pairwise_append]
      refine ⟨?_, ih hrest, ?_⟩
      · rw [List.pairwise_map]
        exact hrest.imp fun hlt => Or.inr ⟨rfl, hlt⟩
      · rintro p hp ⟨a, b⟩ hq
        obtain ⟨y, -, rfl⟩ := List.mem_map.1 hp
        exact Or.inl (hx a (mem_pairsInOrder hrest hq).1)

namespace Clusters

variable {c : Clusters} {g : CouplingGraph}

/-! ## Coupling between clusters -/

theorem interCoupling_eq_sum (c : Clusters) (g : CouplingGraph) (a b : ClassName) :
    c.interCoupling g a b =
      ∑ x ∈ (c.membersOf a).toFinset, ∑ y ∈ (c.membersOf b).toFinset, g.mutualWeight x y := by
  rw [List.sum_toFinset _ (c.membersOf_nodup a)]
  simp only [List.sum_toFinset _ (c.membersOf_nodup b)]
  simp [interCoupling, total_eq_sum, List.flatMap, List.sum_flatten, Function.comp_def]

theorem interCoupling_comm (c : Clusters) (g : CouplingGraph) (a b : ClassName) :
    c.interCoupling g a b = c.interCoupling g b a := by
  rw [interCoupling_eq_sum, interCoupling_eq_sum, Finset.sum_comm]
  simp only [g.mutualWeight_comm]

theorem interCoupling_eq_zero_iff {a b : ClassName} :
    c.interCoupling g a b = 0 ↔
      ∀ x ∈ c.membersOf a, ∀ y ∈ c.membersOf b, g.mutualWeight x y = 0 := by
  simp [interCoupling_eq_sum]

/-! ## The chosen pair -/

/-- Of the pairs of live clusters that are most strongly coupled, and coupled at all, the first
by its smaller and then by its larger key. -/
structure IsClosest (c : Clusters) (g : CouplingGraph) (p : Candidate) : Prop where
  keep_mem : p.keep ∈ c.keys
  absorb_mem : p.absorb ∈ c.keys
  keep_lt : p.keep < p.absorb
  coupling_eq : p.coupling = c.interCoupling g p.keep p.absorb
  coupling_pos : 0 < p.coupling
  coupling_max : ∀ a ∈ c.keys, ∀ b ∈ c.keys, a ≠ b → c.interCoupling g a b ≤ p.coupling
  first : ∀ a ∈ c.keys, ∀ b ∈ c.keys, a < b → c.interCoupling g a b = p.coupling →
    p.keep < a ∨ p.keep = a ∧ p.absorb ≤ b

/-- No two clusters are coupled. -/
def Uncoupled (c : Clusters) (g : CouplingGraph) : Prop :=
  ∀ a ∈ c.keys, ∀ b ∈ c.keys, a ≠ b → c.interCoupling g a b = 0

theorem mem_candidates_iff {q : Candidate} :
    q ∈ c.candidates g ↔ q.keep ∈ c.keys ∧ q.absorb ∈ c.keys ∧ q.keep < q.absorb ∧
      q.coupling = c.interCoupling g q.keep q.absorb := by
  simp only [candidates, List.mem_map, Prod.exists, mem_pairsInOrder_iff c.keys_sorted]
  constructor
  · rintro ⟨a, b, ⟨ha, hb, hlt⟩, rfl⟩
    exact ⟨ha, hb, hlt, rfl⟩
  · rintro ⟨ha, hb, hlt, hcoupling⟩
    exact ⟨q.keep, q.absorb, ⟨ha, hb, hlt⟩, by rw [← hcoupling]⟩

theorem candidates_sorted (c : Clusters) (g : CouplingGraph) :
    (c.candidates g).Pairwise fun p q =>
      p.keep < q.keep ∨ p.keep = q.keep ∧ p.absorb < q.absorb := by
  rw [candidates, List.pairwise_map]
  exact pairsInOrder_sorted c.keys_sorted

/-- Two distinct live keys stand in one candidate, in one order or the other. -/
theorem exists_candidate {a b : ClassName} (ha : a ∈ c.keys) (hb : b ∈ c.keys) (hne : a ≠ b) :
    ∃ q ∈ c.candidates g, q.coupling = c.interCoupling g a b := by
  rcases lt_or_gt_of_ne hne with hlt | hlt
  · exact ⟨⟨a, b, _⟩, mem_candidates_iff.2 ⟨ha, hb, hlt, rfl⟩, rfl⟩
  · exact ⟨⟨b, a, _⟩, mem_candidates_iff.2 ⟨hb, ha, hlt, rfl⟩, c.interCoupling_comm g b a⟩

/-- The running best ends at the first of the greatest: nothing is stronger, and what stands
before it is weaker. -/
private theorem foldl_stronger (b : Candidate) (l : List Candidate) :
    ∃ before p after, b :: l = before ++ p :: after ∧ l.foldl stronger (some b) = some p ∧
      (∀ q ∈ before, q.coupling < p.coupling) ∧ ∀ q ∈ b :: l, q.coupling ≤ p.coupling := by
  induction l generalizing b with
  | nil => exact ⟨[], b, [], rfl, rfl, by simp, by simp⟩
  | cons x rest ih =>
      by_cases hlt : b.coupling < x.coupling
      · obtain ⟨before, p, after, hsplit, hfold, hbefore, hmax⟩ := ih x
        have hb : b.coupling < p.coupling := hlt.trans_le (hmax x List.mem_cons_self)
        refine ⟨b :: before, p, after, by simp [hsplit], ?_, ?_, ?_⟩
        · simpa [stronger, hlt] using hfold
        · exact List.forall_mem_cons.2 ⟨hb, hbefore⟩
        · exact List.forall_mem_cons.2 ⟨hb.le, hmax⟩
      · obtain ⟨before, p, after, hsplit, hfold, hbefore, hmax⟩ := ih b
        obtain ⟨hb, hrest⟩ := List.forall_mem_cons.1 hmax
        have hx : x.coupling ≤ p.coupling := (not_lt.1 hlt).trans hb
        have hstep : (x :: rest).foldl stronger (some b) = some p := by
          simpa [stronger, hlt] using hfold
        have hmax' : ∀ q ∈ b :: x :: rest, q.coupling ≤ p.coupling :=
          List.forall_mem_cons.2 ⟨hb, List.forall_mem_cons.2 ⟨hx, hrest⟩⟩
        -- The first of the greatest is `b` itself or stands behind `x`.
        cases before with
        | nil =>
            obtain ⟨rfl, rfl⟩ := List.cons.inj hsplit
            exact ⟨[], b, x :: rest, rfl, hstep, by simp, hmax'⟩
        | cons d before =>
            obtain ⟨rfl, rfl⟩ := List.cons.inj hsplit
            obtain ⟨hlt', hbefore⟩ := List.forall_mem_cons.1 hbefore
            refine ⟨b :: x :: before, p, after, rfl, hstep, ?_, hmax'⟩
            refine List.forall_mem_cons.2 ⟨hlt', List.forall_mem_cons.2 ⟨?_, hbefore⟩⟩
            exact (not_lt.1 hlt).trans_lt hlt'

/-- Either there are no candidates, or the first of the greatest is known. -/
private theorem candidates_cases (c : Clusters) (g : CouplingGraph) :
    (c.candidates g = [] ∧ c.closestPair g = none) ∨
      ∃ before p after, c.candidates g = before ++ p :: after ∧
        c.closestPair g = (if 0 < p.coupling then some p else none) ∧
        (∀ q ∈ before, q.coupling < p.coupling) ∧
        ∀ q ∈ c.candidates g, q.coupling ≤ p.coupling := by
  cases h : c.candidates g with
  | nil => exact Or.inl ⟨rfl, by simp [closestPair, h]⟩
  | cons b l =>
      obtain ⟨before, p, after, hsplit, hfold, hbefore, hmax⟩ := foldl_stronger b l
      refine Or.inr ⟨before, p, after, hsplit, ?_, hbefore, hmax⟩
      simp [closestPair, h, stronger, hfold, Option.filter]

theorem isClosest_of_closestPair {p : Candidate} (h : c.closestPair g = some p) :
    c.IsClosest g p := by
  rcases c.candidates_cases g with ⟨-, hnone⟩ | ⟨before, p', after, hsplit, hp, hbefore, hmax⟩
  · rw [hnone] at h
    cases h
  · rw [hp] at h
    split at h
    · rename_i hpos
      cases h
      have hmem : p ∈ c.candidates g := by simp [hsplit]
      obtain ⟨hkeep, habsorb, hlt, hcoupling⟩ := mem_candidates_iff.1 hmem
      refine ⟨hkeep, habsorb, hlt, hcoupling, hpos, ?_, ?_⟩
      · intro a ha b hb hne
        obtain ⟨q, hq, hq'⟩ := exists_candidate (g := g) ha hb hne
        exact hq' ▸ hmax q hq
      · intro a ha b hb hab heq
        have hq : ⟨a, b, p.coupling⟩ ∈ c.candidates g :=
          mem_candidates_iff.2 ⟨ha, hb, hab, heq.symm⟩
        have hsorted := c.candidates_sorted g
        rw [hsplit] at hq hsorted
        rcases List.mem_append.1 hq with hq | hq
        · exact absurd (hbefore _ hq) (lt_irrefl p.coupling)
        · rcases List.mem_cons.1 hq with hq | hq
          · cases p
            cases hq
            exact Or.inr ⟨rfl, le_rfl⟩
          · have hlater := (List.pairwise_cons.1 (List.pairwise_append.1 hsorted).2.1).1 _ hq
            exact hlater.imp id fun h => ⟨h.1, h.2.le⟩
    · cases h

/-- No pair is chosen exactly when no two clusters are coupled. -/
theorem closestPair_eq_none_iff : c.closestPair g = none ↔ c.Uncoupled g := by
  constructor
  · intro hnone a ha b hb hne
    obtain ⟨q, hq, hq'⟩ := exists_candidate (g := g) ha hb hne
    rcases c.candidates_cases g with ⟨hnil, -⟩ | ⟨before, p, after, hsplit, hp, hbefore, hmax⟩
    · rw [hnil] at hq
      cases hq
    · have hle := hmax q hq
      have hzero : ¬0 < p.coupling := by
        intro hpos
        rw [hp, if_pos hpos] at hnone
        cases hnone
      omega
  · intro hzero
    cases h : c.closestPair g with
    | none => rfl
    | some p =>
        have hp := isClosest_of_closestPair h
        have hcoupling := hzero p.keep hp.keep_mem p.absorb hp.absorb_mem hp.keep_lt.ne
        have hpos := hp.coupling_pos
        rw [hp.coupling_eq, hcoupling] at hpos
        exact absurd hpos (lt_irrefl 0)

/-- Of the pairs of clusters one at most is the closest. -/
theorem IsClosest.eq {p q : Candidate} (hp : c.IsClosest g p) (hq : c.IsClosest g q) : p = q := by
  have hcoupling : p.coupling = q.coupling := by
    apply le_antisymm
    · rw [hp.coupling_eq]
      exact hq.coupling_max _ hp.keep_mem _ hp.absorb_mem hp.keep_lt.ne
    · rw [hq.coupling_eq]
      exact hp.coupling_max _ hq.keep_mem _ hq.absorb_mem hq.keep_lt.ne
  have hpq := hp.first _ hq.keep_mem _ hq.absorb_mem hq.keep_lt
    (hq.coupling_eq.symm.trans hcoupling.symm)
  have hqp := hq.first _ hp.keep_mem _ hp.absorb_mem hp.keep_lt
    (hp.coupling_eq.symm.trans hcoupling)
  have hkeep : p.keep = q.keep := by
    rcases hpq with hlt | ⟨hkeep, -⟩
    · rcases hqp with hgt | ⟨hkeep, -⟩
      · exact absurd hgt (lt_asymm hlt)
      · exact hkeep.symm
    · exact hkeep
  have habsorb : p.absorb = q.absorb := by
    rcases hpq with hlt | ⟨-, hle⟩
    · exact absurd hkeep hlt.ne
    · rcases hqp with hgt | ⟨-, hge⟩
      · exact absurd hkeep hgt.ne'
      · exact le_antisymm hle hge
  cases p
  cases q
  rw [Candidate.mk.injEq]
  exact ⟨hkeep, habsorb, hcoupling⟩

theorem closestPair_eq_some_iff {p : Candidate} :
    c.closestPair g = some p ↔ c.IsClosest g p := by
  constructor
  · exact isClosest_of_closestPair
  · intro hp
    cases h : c.closestPair g with
    | none =>
        have hzero := closestPair_eq_none_iff.1 h _ hp.keep_mem _ hp.absorb_mem hp.keep_lt.ne
        rw [← hp.coupling_eq] at hzero
        exact absurd hzero hp.coupling_pos.ne'
    | some q => exact congrArg some ((isClosest_of_closestPair h).eq hp)

/-- The closest pair also comes first if the keys of a pair are given in the other order. -/
theorem IsClosest.first_of_ne {p : Candidate} (hp : c.IsClosest g p) {a b : ClassName}
    (ha : a ∈ c.keys) (hb : b ∈ c.keys) (hne : a ≠ b)
    (hcoupling : c.interCoupling g a b = p.coupling) :
    p.keep < a ∨ p.keep = a ∧ p.absorb ≤ b := by
  rcases lt_or_gt_of_ne hne with hlt | hlt
  · exact hp.first a ha b hb hlt hcoupling
  · rw [c.interCoupling_comm] at hcoupling
    rcases hp.first b hb a ha hlt hcoupling with hkeep | ⟨hkeep, -⟩
    · exact Or.inl (hkeep.trans hlt)
    · exact Or.inl (hkeep.trans_lt hlt)

/-- For any clusters, also ones that are empty or share classes: no pair is chosen exactly if there
are fewer than two clusters or no two of them are coupled. A pair is chosen exactly if its keys are
live and in order, it is coupled, no two clusters are coupled more strongly, and all that are
coupled as strongly stand at it or behind it. -/
theorem closestPair_exact (c : Clusters) (g : CouplingGraph) :
    (c.closestPair g = none ↔ c.size < 2 ∨ c.Uncoupled g) ∧
    ∀ p, c.closestPair g = some p ↔
      p.keep ∈ c.keys ∧ p.absorb ∈ c.keys ∧ p.keep < p.absorb ∧
      p.coupling = c.interCoupling g p.keep p.absorb ∧ 0 < p.coupling ∧
      ∀ a ∈ c.keys, ∀ b ∈ c.keys, a ≠ b →
        c.interCoupling g a b ≤ p.coupling ∧
        (c.interCoupling g a b = p.coupling → p.keep < a ∨ p.keep = a ∧ p.absorb ≤ b) := by
  constructor
  · rw [closestPair_eq_none_iff]
    constructor
    · exact Or.inr
    · rintro (hsize | huncoupled)
      · intro a ha b hb hne
        exact absurd (size_le_one_iff.1 (Nat.le_of_lt_succ hsize) a ha b hb) hne
      · exact huncoupled
  · intro p
    rw [closestPair_eq_some_iff]
    constructor
    · intro hp
      refine ⟨hp.keep_mem, hp.absorb_mem, hp.keep_lt, hp.coupling_eq, hp.coupling_pos, ?_⟩
      intro a ha b hb hne
      exact ⟨hp.coupling_max a ha b hb hne, hp.first_of_ne ha hb hne⟩
    · rintro ⟨hkeep, habsorb, hlt, hcoupling, hpos, hothers⟩
      refine ⟨hkeep, habsorb, hlt, hcoupling, hpos, ?_, ?_⟩
      · intro a ha b hb hne
        exact (hothers a ha b hb hne).1
      · intro a ha b hb hab
        exact (hothers a ha b hb hab.ne).2

/-- An empty cluster, and two that share a class: the call from `B` to itself counts twice. -/
example :
    let c : Clusters := ⟨.ofList [("A", .ofList ["A", "B"]), ("B", .ofList ["B"]), ("C", .empty)]⟩
    let g : CouplingGraph := ⟨.ofList [("B", .ofList [("B", 1)])]⟩
    c.closestPair g = some ⟨"A", "B", 2⟩ := by
  decide +kernel

end Clusters

end ModuleRecovery
