import ModuleRecovery.Proofs.MergedCouplings

/-!
How far the couplings of a run can rise from one merge to the next. They need not fall, since a
merged cluster adds up the couplings of its parts. Main statement: a merge is coupled at most twice
as strongly as the one before it, and more strongly only if it goes on with the cluster that was
merged there.
-/

namespace ModuleRecovery

namespace Clusters

variable {c : Clusters} {g : CouplingGraph} {classes : Set ClassName} {p : Candidate}
  {a b : ClassName}

/-- After the closest pair is merged, no coupling is more than twice that of the pair, and only the
merged cluster can have one that is greater. -/
theorem IsClosest.interCoupling_join_le (hp : c.IsClosest g p) (hpart : c.IsPartition classes)
    (ha : a ∈ (c.join p.keep p.absorb).keys) (hb : b ∈ (c.join p.keep p.absorb).keys)
    (hne : a ≠ b) :
    (c.join p.keep p.absorb).interCoupling g a b ≤ 2 * p.coupling ∧
      (p.coupling < (c.join p.keep p.absorb).interCoupling g a b → p.keep = a ∨ p.keep = b) := by
  have hdistinct : p.keep ≠ p.absorb := hp.keep_lt.ne
  obtain ⟨ha, haabsorb⟩ := (mem_keys_join hp.keep_mem hdistinct).1 ha
  obtain ⟨hb, hbabsorb⟩ := (mem_keys_join hp.keep_mem hdistinct).1 hb
  have hmerged {key : ClassName} (hkey : key ∈ c.keys) (hkeep : key ≠ p.keep)
      (habsorb : key ≠ p.absorb) :
      (c.join p.keep p.absorb).interCoupling g p.keep key ≤ 2 * p.coupling := by
    have hleft := hp.coupling_max p.keep hp.keep_mem key hkey hkeep.symm
    have hright := hp.coupling_max p.absorb hp.absorb_mem key hkey habsorb.symm
    rw [hpart.interCoupling_join_keep hdistinct hkeep habsorb]
    omega
  by_cases hakeep : a = p.keep
  · subst hakeep
    exact ⟨hmerged hb hne.symm hbabsorb, fun _ => Or.inl rfl⟩
  · by_cases hbkeep : b = p.keep
    · subst hbkeep
      rw [interCoupling_comm]
      exact ⟨hmerged ha hakeep haabsorb, fun _ => Or.inr rfl⟩
    · have hmax := hp.coupling_max a ha b hb hne
      rw [interCoupling_join_of_ne hakeep haabsorb hbkeep hbabsorb]
      exact ⟨by omega, fun hlt => absurd hmax hlt.not_ge⟩

end Clusters

namespace Rule

variable {rule : Rule} {g : CouplingGraph} {made : Nat} {c final : Clusters}

/-- Of two merges of a path one after the other, the second is accepted where the first leads. -/
theorem Path.exists_accepts {before after : List (MergeStep × Clusters)}
    {first second : MergeStep × Clusters}
    (path : rule.Path g made c (before ++ first :: second :: after) final) :
    ∃ middle pair next, rule.Path g made c before middle ∧
      rule.Accepts g middle pair ∧ first.1 = rule.record g (made + before.length) middle pair ∧
      rule.Accepts g (middle.join pair.keep pair.absorb) next ∧
      second.1 = rule.record g (made + before.length + 1) (middle.join pair.keep pair.absorb)
        next := by
  obtain ⟨middle, hbefore, hrest⟩ := path.split
  cases hrest with
  | @cons _ _ _ pair _ haccepts hrest =>
      cases hrest with
      | @cons _ _ _ next _ hnext _ =>
          exact ⟨middle, pair, next, hbefore, haccepts, rfl, hnext, rfl⟩

/-- In every run, whatever the rule and the budgets and also if it takes up the clusters that
earlier runs have left, of two merges one after the other the second has at most twice the coupling
of the first; and it has a greater one only if the cluster that the first has kept is one of its
two. -/
theorem inversions_limited (rule : Rule) (g : CouplingGraph) (budgets : List (Option Nat)) :
    ∀ r ∈ rule.runAll g budgets (.singletons g),
      ∀ before first second after, r.outcome.steps = before ++ first :: second :: after →
        second.coupling ≤ 2 * first.coupling ∧
        (first.coupling < second.coupling →
          first.kept = second.kept ∨ first.kept = second.absorbed) := by
  intro r hr before first second after hsteps
  obtain ⟨budget, earlier, start, hreaches, rfl⟩ := Reaches.start.exists_run hr
  have path := rule.path_run g budget start
  obtain ⟨before, rest, hmerges, rfl, hrest⟩ := List.map_eq_append_iff.1 hsteps
  obtain ⟨first, later, rfl, rfl, hlater⟩ := List.map_eq_cons_iff.1 hrest
  obtain ⟨second, last, rfl, rfl, -⟩ := List.map_eq_cons_iff.1 hlater
  rw [hmerges] at path
  obtain ⟨middle, pair, next, hbefore, haccepts, hfirst, hnext, hsecond⟩ := path.exists_accepts
  obtain ⟨hpart, -⟩ := (hbefore.reaches hreaches).cohesive
  have hpair := hnext.isClosest
  rw [hfirst, hsecond]
  change next.coupling ≤ 2 * pair.coupling ∧
    (pair.coupling < next.coupling → pair.keep = next.keep ∨ pair.keep = next.absorb)
  rw [hpair.coupling_eq]
  exact haccepts.isClosest.interCoupling_join_le hpart hpair.keep_mem hpair.absorb_mem
    hpair.keep_lt.ne

/-- Three classes with as many calls between any two of them: the second merge has twice the
coupling of the first. -/
theorem inversions_limited_equal_triangle :
    let g := ((CouplingGraph.empty.recordCalls "A" "B" 4).recordCalls "C" "A" 4).recordCalls
      "B" "C" 4
    ∃ r ∈ Rule.hierarchical.runAll g [none] (.singletons g), ∃ first second,
      r.outcome.steps = [first, second] ∧ first.coupling = 4 ∧ second.coupling = 8 ∧
        second.coupling ≤ 2 * first.coupling ∧
        (first.kept = second.kept ∨ first.kept = second.absorbed) := by
  intro g
  have hrun : ∃ r ∈ Rule.hierarchical.runAll g [none] (.singletons g), r.outcome.steps =
      [⟨1, "A", "B", 4, 2, none⟩, ⟨2, "A", "C", 8, 3, none⟩] := by
    decide +kernel
  obtain ⟨r, hr, hsteps⟩ := hrun
  have h := inversions_limited .hierarchical g [none] r hr [] _ _ [] hsteps
  exact ⟨r, hr, _, _, hsteps, rfl, rfl, h.1, h.2 (by decide)⟩

end Rule

end ModuleRecovery
