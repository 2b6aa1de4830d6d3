import ModuleRecovery.Proofs.Unions

/-!
Merges in place, of any clusters: they may be empty or share classes, as those read from a text may.
The steps of a merge take one cluster out before they look the other one up; it is found again,
since the keys differ and it was found before. Main statement: a merge that fails leaves the
clusters as they were, and one that succeeds changes nothing but its two clusters.
-/

namespace ModuleRecovery

namespace Clusters

variable {c : Clusters} {keep absorb key : ClassName}

theorem take_of_not_mem (h : key ∉ c.keys) : c.take key = (none, c) := by
  have hnone : c.members? key = none := Table.get?_eq_none_iff.2 h
  have hleft : c.table.erase key = c.table := Table.erase_of_not_mem h
  rw [take, hnone, hleft]

theorem members?_take_of_ne (h : key ≠ absorb) :
    (c.take absorb).2.members? key = c.members? key :=
  (Table.get?_erase c.table absorb key).trans (if_neg h)

theorem mergeInPlace_self (c : Clusters) (key : ClassName) :
    c.mergeInPlace key key = (.error (.selfMerge key), c) :=
  if_pos rfl

theorem mergeInPlace_of_keep_not_mem (hne : keep ≠ absorb) (hkeep : keep ∉ c.keys) :
    c.mergeInPlace keep absorb = (.error (.unknownCluster keep), c) := by
  have hnone : ¬c.table.contains keep := fun h => hkeep (Table.contains_iff.1 h)
  rw [mergeInPlace, if_neg hne, if_pos hnone]

theorem mergeInPlace_of_absorb_not_mem (hne : keep ≠ absorb) (hkeep : keep ∈ c.keys)
    (habsorb : absorb ∉ c.keys) :
    c.mergeInPlace keep absorb = (.error (.unknownCluster absorb), c) := by
  have hlive : ¬¬c.table.contains keep := not_not.2 (Table.contains_iff.2 hkeep)
  rw [mergeInPlace, if_neg hne, if_neg hlive, take_of_not_mem habsorb]

/-- Two live clusters are joined: the one that stays is still there once the other is taken out. -/
theorem mergeInPlace_of_mem (hne : keep ≠ absorb) (hkeep : keep ∈ c.keys)
    (habsorb : absorb ∈ c.keys) :
    c.mergeInPlace keep absorb =
      (.ok ((c.join keep absorb).sizeOf keep), c.join keep absorb) := by
  have hlive : ¬¬c.table.contains keep := not_not.2 (Table.contains_iff.2 hkeep)
  obtain ⟨kept, hkept⟩ := mem_keys_iff.1 hkeep
  obtain ⟨absorbed, habsorbed⟩ := mem_keys_iff.1 habsorb
  have htake : c.take absorb = (some absorbed, (c.take absorb).2) := by
    rw [take, habsorbed]
  have hfound : (c.take absorb).2.members? keep = some kept := by
    rw [members?_take_of_ne hne, hkept]
  have hunion : c.union keep absorb = kept.union absorbed := by
    rw [union, hkept, habsorbed]
    rfl
  have hsize : (c.join keep absorb).sizeOf keep = (kept.union absorbed).size := by
    rw [sizeOf, membersOf_join_keep, hunion]
    rfl
  have hjoined : ⟨(c.take absorb).2.table.insert keep (kept.union absorbed)⟩ =
      c.join keep absorb := by
    rw [join, hunion]
    rfl
  rw [mergeInPlace, if_neg hne, if_neg hlive, htake]
  simp only [hfound]
  rw [hjoined, hsize]

/-- The steps of a merge come to the same as the merge told at once, whose failures leave the
clusters as they were. -/
theorem mergeInPlace_eq (c : Clusters) (keep absorb : ClassName) :
    c.mergeInPlace keep absorb =
      match c.merge keep absorb with
      | .ok (size, after) => (.ok size, after)
      | .error error => (.error error, c) := by
  unfold merge
  by_cases hne : keep = absorb
  · rw [if_pos hne, hne, mergeInPlace_self]
  · rw [if_neg hne]
    by_cases hkeep : keep ∈ c.keys
    · rw [if_neg (not_not.2 (Table.contains_iff.2 hkeep))]
      by_cases habsorb : absorb ∈ c.keys
      · rw [if_neg (not_not.2 (Table.contains_iff.2 habsorb)),
          mergeInPlace_of_mem hne hkeep habsorb]
      · rw [if_pos fun h => habsorb (Table.contains_iff.1 h),
          mergeInPlace_of_absorb_not_mem hne hkeep habsorb]
    · rw [if_pos fun h => hkeep (Table.contains_iff.1 h), mergeInPlace_of_keep_not_mem hne hkeep]

theorem merge_eq_mergeInPlace (c : Clusters) (keep absorb : ClassName) :
    c.merge keep absorb =
      (c.mergeInPlace keep absorb).1.map fun size => (size, (c.mergeInPlace keep absorb).2) := by
  rw [mergeInPlace_eq]
  rcases c.merge keep absorb with error | ⟨size, after⟩
  · rfl
  · rfl

/-- Joining two clusters counts the classes that they share once instead of twice. -/
theorem classCount_join (hne : keep ≠ absorb) (hkeep : keep ∈ c.keys) (habsorb : absorb ∈ c.keys) :
    (c.join keep absorb).classCount +
        ((c.membersOf keep).toFinset ∩ (c.membersOf absorb).toFinset).card = c.classCount := by
  have hkeepKey : keep ∈ c.keys.toFinset.erase absorb :=
    Finset.mem_erase.2 ⟨hne, List.mem_toFinset.2 hkeep⟩
  have hothers : ∀ key ∈ (c.keys.toFinset.erase absorb).erase keep,
      (c.join keep absorb).sizeOf key = c.sizeOf key := by
    intro key hkey
    obtain ⟨hkeep', hkey⟩ := Finset.mem_erase.1 hkey
    rw [sizeOf, membersOf_join_of_ne hkeep' (Finset.ne_of_mem_erase hkey), sizeOf]
  have hbefore : c.classCount = c.sizeOf absorb + (c.sizeOf keep +
      ∑ key ∈ (c.keys.toFinset.erase absorb).erase keep, c.sizeOf key) := by
    rw [classCount_eq_sum, Finset.add_sum_erase _ _ hkeepKey,
      Finset.add_sum_erase _ _ (List.mem_toFinset.2 habsorb)]
  have hafter : (c.join keep absorb).classCount = (c.join keep absorb).sizeOf keep +
      ∑ key ∈ (c.keys.toFinset.erase absorb).erase keep, c.sizeOf key := by
    rw [classCount_eq_sum, toFinset_keys_join hkeep hne, ← Finset.add_sum_erase _ _ hkeepKey,
      Finset.sum_congr rfl hothers]
  have hcard := Finset.card_union_add_card_inter (c.membersOf keep).toFinset
    (c.membersOf absorb).toFinset
  rw [hbefore, hafter, sizeOf_join_keep, sizeOf_eq_card, sizeOf_eq_card]
  omega

/-- A merge does all of its work or nothing. It fails for two equal keys, else for an unknown
`keep`, else for an unknown `absorb`, and then the clusters are as they were. Otherwise it tells the
size of the union, which stands under `keep` from then on; `absorb` is no key any more, every other
key keeps its members, and the classes are fewer by those that both clusters had. -/
theorem mergeInPlace_all_or_nothing (c : Clusters) (keep absorb : ClassName) :
    let answer := (c.mergeInPlace keep absorb).1
    let after := (c.mergeInPlace keep absorb).2
    c.merge keep absorb = answer.map (fun size => (size, after)) ∧
    (keep = absorb → answer = .error (.selfMerge keep) ∧ after = c) ∧
    (keep ≠ absorb → keep ∉ c.keys → answer = .error (.unknownCluster keep) ∧ after = c) ∧
    (keep ≠ absorb → keep ∈ c.keys → absorb ∉ c.keys →
      answer = .error (.unknownCluster absorb) ∧ after = c) ∧
    ∀ kept absorbed, keep ≠ absorb → c.members? keep = some kept →
      c.members? absorb = some absorbed →
      ∃ both : NameSet, (∀ x, x ∈ both ↔ x ∈ kept ∨ x ∈ absorbed) ∧
        answer = .ok both.size ∧
        absorb ∉ after.keys ∧
        after.members? keep = some both ∧
        (∀ key, key ≠ keep → key ≠ absorb → after.members? key = c.members? key) ∧
        after.classCount + (kept.toList.toFinset ∩ absorbed.toList.toFinset).card =
          c.classCount := by
  refine ⟨merge_eq_mergeInPlace c keep absorb, ?_, ?_, ?_, ?_⟩
  · rintro rfl
    rw [mergeInPlace_self]
    exact ⟨rfl, rfl⟩
  · intro hne hkeep
    rw [mergeInPlace_of_keep_not_mem hne hkeep]
    exact ⟨rfl, rfl⟩
  · intro hne hkeep habsorb
    rw [mergeInPlace_of_absorb_not_mem hne hkeep habsorb]
    exact ⟨rfl, rfl⟩
  · intro kept absorbed hne hkept habsorbed
    have hkeep : keep ∈ c.keys := mem_keys_iff.2 ⟨kept, hkept⟩
    have habsorb : absorb ∈ c.keys := mem_keys_iff.2 ⟨absorbed, habsorbed⟩
    have hstays : (c.join keep absorb).members? keep = some (c.union keep absorb) := by
      rw [members?_join, if_pos rfl]
    have hgone : absorb ∉ (c.join keep absorb).keys := by
      rw [mem_keys_join hkeep hne]
      exact fun h => h.2 rfl
    have hcount := classCount_join hne hkeep habsorb
    rw [membersOf_eq hkept, membersOf_eq habsorbed] at hcount
    rw [mergeInPlace_of_mem hne hkeep habsorb]
    refine ⟨c.union keep absorb, ?_, ?_, hgone, hstays, ?_, hcount⟩
    · intro x
      rw [union, hkept, habsorbed]
      exact NameSet.mem_union
    · rw [sizeOf, membersOf_join_keep]
      rfl
    · intro key hkeep' habsorb'
      rw [members?_join, if_neg hkeep', if_neg habsorb']

/-- The two clusters share a class, and so does a third; one that is empty stays. -/
theorem mergeInPlace_all_or_nothing_overlapping :
    let c : Clusters := ⟨.ofList [("A", .ofList ["A", "B", "X"]), ("C", .ofList ["B", "C"]),
      ("D", .ofList []), ("E", .ofList ["B"])]⟩
    c.mergeInPlace "A" "A" = (.error (.selfMerge "A"), c) ∧
    c.mergeInPlace "X" "B" = (.error (.unknownCluster "X"), c) ∧
    c.mergeInPlace "A" "B" = (.error (.unknownCluster "B"), c) ∧
    (c.mergeInPlace "C" "A").1 = .ok 4 ∧
    (c.mergeInPlace "C" "A").2.members? "D" = some .empty ∧
    (c.mergeInPlace "C" "A").2.classCount + 1 = c.classCount := by
  intro c
  have hA : c.members? "A" = some (.ofList ["A", "B", "X"]) := by decide +kernel
  have hC : c.members? "C" = some (.ofList ["B", "C"]) := by decide +kernel
  have hself := (c.mergeInPlace_all_or_nothing "A" "A").2.1 rfl
  have hkeep := (c.mergeInPlace_all_or_nothing "X" "B").2.2.1 (by decide) (by decide +kernel)
  have habsorb := (c.mergeInPlace_all_or_nothing "A" "B").2.2.2.1 (by decide) (by decide +kernel)
    (by decide +kernel)
  obtain ⟨both, hboth, hsize, -, hstays, hothers, hcount⟩ :=
    (c.mergeInPlace_all_or_nothing "C" "A").2.2.2.2 _ _ (by decide) hC hA
  have hunion : both = .ofList ["A", "B", "C", "X"] := by
    apply NameSet.eq_of_mem_iff
    intro x
    rw [hboth, NameSet.mem_ofList, NameSet.mem_ofList, NameSet.mem_ofList]
    simp only [List.mem_cons, List.not_mem_nil]
    tauto
  refine ⟨Prod.ext hself.1 hself.2, Prod.ext hkeep.1 hkeep.2, Prod.ext habsorb.1 habsorb.2, ?_, ?_,
    ?_⟩
  · rw [hsize, hunion]
    decide +kernel
  · rw [hothers "D" (by decide) (by decide)]
    decide +kernel
  · have hshared : (NameSet.ofList ["B", "C"]).toList.toFinset ∩
        (NameSet.ofList ["A", "B", "X"]).toList.toFinset = {"B"} := by decide +kernel
    rw [← hcount, hshared]
    rfl

end Clusters

end ModuleRecovery
