import Mathlib.Data.Finset.Card
import ModuleRecovery.Clusters
import ModuleRecovery.Proofs.Tables

/-!
Members, keys and sizes of clusters, at the start and after two clusters are joined. Main
statements: joining two live clusters puts the members of both under the key that stays, takes
away the other key, changes no other cluster and leaves one cluster less; and this is what a
merge of them does, which cannot fail.
-/

namespace ModuleRecovery

theorem NameSet.eq_of_mem_iff {s t : NameSet} (h : ∀ x, x ∈ s ↔ x ∈ t) : s = t := by
  have hlist : s.toList = t.toList := eq_of_sorted_of_mem_iff s.sorted t.sorted h
  cases s
  cases t
  cases hlist
  rfl

theorem NameSet.nodup (s : NameSet) : s.toList.Nodup := by
  apply s.sorted.imp
  intro a b hlt heq
  exact String.lt_irrefl b (heq ▸ hlt)

namespace Clusters

theorem mem_keys_iff {c : Clusters} {key : ClassName} :
    key ∈ c.keys ↔ ∃ members, c.members? key = some members :=
  Table.mem_keys_iff

theorem membersOf_eq {c : Clusters} {key : ClassName} {members : NameSet}
    (h : c.members? key = some members) : c.membersOf key = members.toList := by
  rw [membersOf, h]
  rfl

theorem mem_keys_of_mem_membersOf {c : Clusters} {key x : ClassName}
    (h : x ∈ c.membersOf key) : key ∈ c.keys := by
  rw [mem_keys_iff, ← Option.ne_none_iff_exists']
  intro hnone
  simp [membersOf, hnone] at h

theorem membersOf_nodup (c : Clusters) (key : ClassName) : (c.membersOf key).Nodup := by
  cases h : c.members? key with
  | none => simp [membersOf, h]
  | some members =>
      rw [membersOf_eq h]
      exact members.nodup

theorem sizeOf_eq_card (c : Clusters) (key : ClassName) :
    c.sizeOf key = (c.membersOf key).toFinset.card :=
  (List.toFinset_card_of_nodup (c.membersOf_nodup key)).symm

theorem keys_nodup (c : Clusters) : c.keys.Nodup := c.table.keys_nodup

theorem size_eq_card (c : Clusters) : c.size = c.keys.toFinset.card := by
  rw [List.toFinset_card_of_nodup c.keys_nodup]
  simp [size, keys, Table.size, Table.keys]

theorem size_le_one_iff {c : Clusters} :
    c.size ≤ 1 ↔ ∀ a ∈ c.keys, ∀ b ∈ c.keys, a = b := by
  rw [size_eq_card, Finset.card_le_one]
  simp only [List.mem_toFinset]

theorem size_pos_of_mem_keys {c : Clusters} {key : ClassName} (h : key ∈ c.keys) : 0 < c.size := by
  have hpos := List.length_pos_of_mem h
  rwa [keys, Table.keys, List.length_map] at hpos

/-- Clusters with the same keys and the same members are equal. -/
theorem eq_of_mem_iff {c d : Clusters} (hkeys : ∀ key, key ∈ c.keys ↔ key ∈ d.keys)
    (hmem : ∀ key x, x ∈ c.membersOf key ↔ x ∈ d.membersOf key) : c = d := by
  have htable : c.table = d.table := by
    apply Table.eq_of_mem_keys_iff hkeys
    intro key members members' hc hd
    apply NameSet.eq_of_mem_iff
    intro x
    have hx := hmem key x
    rw [membersOf_eq hc, membersOf_eq hd] at hx
    exact hx
  cases c
  cases d
  exact congrArg _ htable

/-! ## One cluster for each class -/

theorem keys_singletons (g : CouplingGraph) : (singletons g).keys = g.classes := by
  simp [keys, singletons, Table.keys, CouplingGraph.classes, Function.comp_def]

theorem size_singletons (g : CouplingGraph) : (singletons g).size = g.classCount := by
  simp [size, singletons, Table.size, CouplingGraph.classCount]

theorem members?_singletons (g : CouplingGraph) (key : ClassName) :
    (singletons g).members? key = if key ∈ g.classes then some (.singleton key) else none := by
  split
  · rename_i h
    obtain ⟨row, hrow⟩ := Table.mem_keys_iff.1 h
    rw [members?, Table.get?_eq_some_iff]
    exact List.mem_map.2 ⟨(key, row), Table.get?_eq_some_iff.1 hrow, rfl⟩
  · rename_i h
    have hkeys : key ∉ (singletons g).keys := by rwa [keys_singletons]
    exact Table.get?_eq_none_iff.2 hkeys

theorem membersOf_singletons {g : CouplingGraph} {key : ClassName} (h : key ∈ g.classes) :
    (singletons g).membersOf key = [key] := by
  rw [membersOf_eq ((members?_singletons g key).trans (if_pos h))]
  rfl

theorem mem_membersOf_singletons {g : CouplingGraph} {key x : ClassName} :
    x ∈ (singletons g).membersOf key ↔ x = key ∧ key ∈ g.classes := by
  constructor
  · intro h
    have hkey : key ∈ g.classes := keys_singletons g ▸ mem_keys_of_mem_membersOf h
    rw [membersOf_singletons hkey, List.mem_singleton] at h
    exact ⟨h, hkey⟩
  · rintro ⟨rfl, hkey⟩
    rw [membersOf_singletons hkey]
    exact List.mem_singleton_self x

/-! ## Joining two clusters -/

section Join

variable {c : Clusters} {keep absorb key x : ClassName}

theorem mem_union : x ∈ c.union keep absorb ↔ x ∈ c.membersOf keep ∨ x ∈ c.membersOf absorb := by
  have hmem (k : ClassName) : x ∈ (c.members? k).getD .empty ↔ x ∈ c.membersOf k := by
    cases h : c.members? k <;> simp only [membersOf, h] <;> rfl
  rw [union, NameSet.mem_union, hmem, hmem]

theorem members?_join (c : Clusters) (keep absorb key : ClassName) :
    (c.join keep absorb).members? key =
      if key = keep then some (c.union keep absorb)
      else if key = absorb then none else c.members? key := by
  rw [members?, join, Table.get?_insert, Table.get?_erase]
  rfl

theorem membersOf_join_keep (c : Clusters) (keep absorb : ClassName) :
    (c.join keep absorb).membersOf keep = (c.union keep absorb).toList :=
  membersOf_eq (by simp [members?_join])

/-- Joining two clusters changes no other one. -/
theorem membersOf_join_of_ne (hkeep : key ≠ keep) (habsorb : key ≠ absorb) :
    (c.join keep absorb).membersOf key = c.membersOf key := by
  simp [membersOf, members?_join, hkeep, habsorb]

theorem mem_membersOf_join_keep :
    x ∈ (c.join keep absorb).membersOf keep ↔ x ∈ c.membersOf keep ∨ x ∈ c.membersOf absorb := by
  rw [membersOf_join_keep]
  exact mem_union

/-- Joining two clusters sends the members of the one key to the other key. -/
theorem mem_membersOf_join :
    x ∈ (c.join keep absorb).membersOf key ↔
      ∃ old, x ∈ c.membersOf old ∧ key = if old = absorb then keep else old := by
  by_cases hkeep : key = keep
  · subst hkeep
    rw [mem_membersOf_join_keep]
    constructor
    · rintro (h | h)
      · exact ⟨key, h, by simp⟩
      · exact ⟨absorb, h, by simp⟩
    · rintro ⟨old, h, hold⟩
      split at hold
      · rename_i heq
        exact Or.inr (heq ▸ h)
      · exact Or.inl (hold ▸ h)
  · by_cases habsorb : key = absorb
    · subst habsorb
      have hempty : (c.join keep key).membersOf key = [] := by
        simp [membersOf, members?_join, hkeep]
      simp only [hempty, List.not_mem_nil, false_iff, not_exists]
      rintro old ⟨-, hold⟩
      split at hold
      · exact hkeep hold
      · rename_i hne
        exact hne hold.symm
    · rw [membersOf_join_of_ne hkeep habsorb]
      constructor
      · intro h
        exact ⟨key, h, by simp [habsorb]⟩
      · rintro ⟨old, h, hold⟩
        split at hold
        · exact absurd hold hkeep
        · exact hold ▸ h

theorem mem_keys_join (hkeep : keep ∈ c.keys) (hne : keep ≠ absorb) :
    key ∈ (c.join keep absorb).keys ↔ key ∈ c.keys ∧ key ≠ absorb := by
  simp only [mem_keys_iff, members?_join]
  by_cases h : key = keep
  · subst h
    simp [hne, mem_keys_iff.1 hkeep]
  · by_cases h' : key = absorb
    · simp [h', hne.symm]
    · simp [h, h']

/-- Joining two live clusters leaves exactly one cluster less. -/
theorem size_join (hkeep : keep ∈ c.keys) (habsorb : absorb ∈ c.keys) (hne : keep ≠ absorb) :
    (c.join keep absorb).size + 1 = c.size := by
  have hmem : keep ∈ (c.table.erase absorb).keys := Table.mem_keys_erase.2 ⟨hkeep, hne⟩
  have hinsert : (c.join keep absorb).size = (c.table.erase absorb).size :=
    Table.size_insert_of_mem _ hmem
  rw [hinsert]
  exact Table.size_erase habsorb

theorem toFinset_keys_join (hkeep : keep ∈ c.keys) (hne : keep ≠ absorb) :
    (c.join keep absorb).keys.toFinset = c.keys.toFinset.erase absorb := by
  ext key
  simp [mem_keys_join hkeep hne, and_comm]

theorem toFinset_membersOf_join_keep (c : Clusters) (keep absorb : ClassName) :
    ((c.join keep absorb).membersOf keep).toFinset =
      (c.membersOf keep).toFinset ∪ (c.membersOf absorb).toFinset := by
  ext x
  simp [mem_membersOf_join_keep]

theorem sizeOf_join_keep (c : Clusters) (keep absorb : ClassName) :
    (c.join keep absorb).sizeOf keep =
      ((c.membersOf keep).toFinset ∪ (c.membersOf absorb).toFinset).card := by
  rw [sizeOf_eq_card, toFinset_membersOf_join_keep]

/-- A merge of two live clusters succeeds. -/
theorem merge_eq_ok (hkeep : keep ∈ c.keys) (habsorb : absorb ∈ c.keys) (hne : keep ≠ absorb) :
    c.merge keep absorb = .ok ((c.join keep absorb).sizeOf keep, c.join keep absorb) := by
  have hk : c.table.contains keep = true := Table.contains_iff.2 hkeep
  have ha : c.table.contains absorb = true := Table.contains_iff.2 habsorb
  simp [merge, hne, hk, ha]

/-- A merge joins two live clusters or fails. -/
theorem merge_cases (c : Clusters) (keep absorb : ClassName) :
    (keep ∈ c.keys ∧ absorb ∈ c.keys ∧ keep ≠ absorb ∧
      c.merge keep absorb = .ok ((c.join keep absorb).sizeOf keep, c.join keep absorb)) ∨
    ∃ error, c.merge keep absorb = .error error := by
  unfold merge
  split
  · exact Or.inr ⟨_, rfl⟩
  · rename_i hne
    split
    · exact Or.inr ⟨_, rfl⟩
    · rename_i hkeep
      split
      · exact Or.inr ⟨_, rfl⟩
      · rename_i habsorb
        rw [Decidable.not_not, Table.contains_iff] at hkeep habsorb
        exact Or.inl ⟨hkeep, habsorb, hne, rfl⟩

end Join

end Clusters

end ModuleRecovery
