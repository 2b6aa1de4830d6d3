import Mathlib.Logic.Relation
import ModuleRecovery.CallGraph.Samples
import ModuleRecovery.Coupling
import ModuleRecovery.Proofs.Components

/-!
Clusters as a union structure. Merges may be asked for in any order and of any names, and many of
them fail; what is left after them depends only on the pairs of those that succeed. Main statement:
two classes share a cluster if and only if these pairs link them, and a cluster is known by the one
member that none of the pairs has absorbed.
-/

namespace ModuleRecovery

namespace Clusters

/-- The clusters after some merges, asked for one after the other by the two keys. A merge that
fails is passed over. -/
def mergeAll (c : Clusters) : List (ClassName × ClassName) → Clusters
  | [] => c
  | (keep, absorb) :: rest =>
      match c.merge keep absorb with
      | .ok (_, after) => after.mergeAll rest
      | .error _ => c.mergeAll rest

/-- Those of the merges that succeed. -/
def merged (c : Clusters) : List (ClassName × ClassName) → List (ClassName × ClassName)
  | [] => []
  | (keep, absorb) :: rest =>
      match c.merge keep absorb with
      | .ok (_, after) => (keep, absorb) :: after.merged rest
      | .error _ => c.merged rest

/-- Linked by a chain of pairs, each of them taken in either direction. -/
def Linked (pairs : List (ClassName × ClassName)) : ClassName → ClassName → Prop :=
  Relation.EqvGen fun a b => (a, b) ∈ pairs

def Together (c : Clusters) (x y : ClassName) : Prop :=
  ∃ key, x ∈ c.memberSet key ∧ y ∈ c.memberSet key

variable {c d : Clusters} {g : CouplingGraph} {classes : Set ClassName}
  {pairs pairs' : List (ClassName × ClassName)} {keep absorb key x y : ClassName}

theorem IsPartition.together_equivalence (h : c.IsPartition classes) :
    Equivalence fun x y => x = y ∨ c.Together x y where
  refl _ := Or.inl rfl
  symm := by
    rintro x y (rfl | ⟨key, hx, hy⟩)
    · exact Or.inl rfl
    · exact Or.inr ⟨key, hy, hx⟩
  trans := by
    rintro x y z (rfl | ⟨key, hx, hy⟩) hyz
    · exact hyz
    · rcases hyz with rfl | ⟨key', hy', hz⟩
      · exact Or.inr ⟨key, hx, hy⟩
      · exact Or.inr ⟨key, hx, h.unique hy' hy ▸ hz⟩

theorem Linked.mono (h : ∀ pair ∈ pairs, pair ∈ pairs') (hlinked : Linked pairs x y) :
    Linked pairs' x y :=
  Relation.EqvGen.mono (fun a b hab => h (a, b) hab) x y hlinked

theorem IsPartition.together_of_linked (h : c.IsPartition classes)
    (hpairs : ∀ a b, (a, b) ∈ pairs → a = b ∨ c.Together a b) (hlinked : Linked pairs x y) :
    x = y ∨ c.Together x y :=
  h.together_equivalence.eqvGen_iff.1 (Relation.EqvGen.mono hpairs x y hlinked)

/-- Joining two clusters brings their members together and nobody else. -/
theorem together_join_iff :
    (c.join keep absorb).Together x y ↔ c.Together x y ∨
      (x ∈ c.memberSet keep ∧ y ∈ c.memberSet absorb) ∨
      (x ∈ c.memberSet absorb ∧ y ∈ c.memberSet keep) := by
  constructor
  · rintro ⟨key, hx, hy⟩
    obtain ⟨old, hx, hold⟩ := mem_membersOf_join.1 hx
    obtain ⟨old', hy, hold'⟩ := mem_membersOf_join.1 hy
    by_cases ha : old = absorb
    · by_cases ha' : old' = absorb
      · exact Or.inl ⟨absorb, ha ▸ hx, ha' ▸ hy⟩
      · rw [if_pos ha] at hold
        rw [if_neg ha', hold] at hold'
        exact Or.inr (Or.inr ⟨ha ▸ hx, hold' ▸ hy⟩)
    · rw [if_neg ha] at hold
      by_cases ha' : old' = absorb
      · rw [if_pos ha', hold] at hold'
        exact Or.inr (Or.inl ⟨hold' ▸ hx, ha' ▸ hy⟩)
      · rw [if_neg ha', hold] at hold'
        exact Or.inl ⟨old, hx, hold' ▸ hy⟩
  · rintro (⟨key, hx, hy⟩ | ⟨hx, hy⟩ | ⟨hx, hy⟩)
    · exact ⟨_, mem_membersOf_join.2 ⟨key, hx, rfl⟩, mem_membersOf_join.2 ⟨key, hy, rfl⟩⟩
    · exact ⟨keep, mem_membersOf_join_keep.2 (Or.inl hx), mem_membersOf_join_keep.2 (Or.inr hy)⟩
    · exact ⟨keep, mem_membersOf_join_keep.2 (Or.inr hx), mem_membersOf_join_keep.2 (Or.inl hy)⟩

/-- The clusters that joining these pairs, one after the other, makes of the single classes. -/
structure IsUnionOf (c : Clusters) (g : CouplingGraph) (pairs : List (ClassName × ClassName)) :
    Prop where
  isPartition : c.IsPartition g.classSet
  key_mem : ∀ key ∈ c.keys, key ∈ c.memberSet key
  mem_keys_iff : ∀ key, key ∈ c.keys ↔ key ∈ g.classes ∧ ∀ pair ∈ pairs, pair.2 ≠ key
  together_iff : ∀ x y, x = y ∨ c.Together x y ↔ Linked pairs x y
  size_add_length : c.size + pairs.length = g.classCount

theorem isUnionOf_singletons (g : CouplingGraph) : (singletons g).IsUnionOf g [] where
  isPartition := isPartition_singletons g
  key_mem := fun key hkey => ((isCohesive_singletons g).least key hkey).1
  mem_keys_iff := by simp [keys_singletons]
  together_iff := by
    intro x y
    constructor
    · rintro (rfl | ⟨key, hx, hy⟩)
      · exact .refl x
      · obtain ⟨rfl, -⟩ := mem_membersOf_singletons.1 hx
        obtain ⟨rfl, -⟩ := mem_membersOf_singletons.1 hy
        exact .refl y
    · apply (isPartition_singletons g).together_of_linked
      intro a b hab
      cases hab
  size_add_length := size_singletons g

/-! ## One merge -/

theorem IsUnionOf.together_join (h : c.IsUnionOf g pairs) (hkeep : keep ∈ c.keys)
    (habsorb : absorb ∈ c.keys) :
    (x = y ∨ (c.join keep absorb).Together x y) ↔ Linked (pairs ++ [(keep, absorb)]) x y := by
  have hold {a b : ClassName} (hab : c.Together a b) : Linked (pairs ++ [(keep, absorb)]) a b := by
    apply Linked.mono _ ((h.together_iff a b).1 (Or.inr hab))
    intro pair hpair
    exact List.mem_append_left _ hpair
  have hkeyed {key a : ClassName} (hkey : key ∈ c.keys) (ha : a ∈ c.memberSet key) :
      Linked (pairs ++ [(keep, absorb)]) a key :=
    hold ⟨key, ha, h.key_mem key hkey⟩
  have hnew : Linked (pairs ++ [(keep, absorb)]) keep absorb :=
    .rel keep absorb (List.mem_append_right _ (List.mem_singleton_self _))
  constructor
  · rintro (rfl | htogether)
    · exact .refl x
    · -- From one cluster to the other the chain goes through both keys.
      rcases together_join_iff.1 htogether with hxy | ⟨hx, hy⟩ | ⟨hx, hy⟩
      · exact hold hxy
      · have hxabsorb : Linked _ x absorb := .trans _ _ _ (hkeyed hkeep hx) hnew
        exact .trans _ _ _ hxabsorb (.symm _ _ (hkeyed habsorb hy))
      · have hxkeep : Linked _ x keep := .trans _ _ _ (hkeyed habsorb hx) (.symm _ _ hnew)
        exact .trans _ _ _ hxkeep (.symm _ _ (hkeyed hkeep hy))
  · apply (h.isPartition.join keep absorb).together_of_linked
    intro a b hmem
    rcases List.mem_append.1 hmem with hmem | hmem
    · rcases (h.together_iff a b).2 (.rel a b hmem) with rfl | hab
      · exact Or.inl rfl
      · exact Or.inr (together_join_iff.2 (Or.inl hab))
    · obtain ⟨rfl, rfl⟩ := Prod.mk.inj (List.mem_singleton.1 hmem)
      exact Or.inr (together_join_iff.2
        (Or.inr (Or.inl ⟨h.key_mem a hkeep, h.key_mem b habsorb⟩)))

theorem IsUnionOf.join (h : c.IsUnionOf g pairs) (hkeep : keep ∈ c.keys)
    (habsorb : absorb ∈ c.keys) (hne : keep ≠ absorb) :
    (c.join keep absorb).IsUnionOf g (pairs ++ [(keep, absorb)]) where
  isPartition := h.isPartition.join keep absorb
  key_mem := by
    intro key hkey
    obtain ⟨hold, hother⟩ := (mem_keys_join hkeep hne).1 hkey
    exact mem_membersOf_join.2 ⟨key, h.key_mem key hold, by simp [hother]⟩
  mem_keys_iff := by
    intro key
    rw [mem_keys_join hkeep hne, h.mem_keys_iff, List.forall_mem_append, List.forall_mem_singleton]
    grind
  together_iff := fun x y => h.together_join hkeep habsorb
  size_add_length := by
    have hsize := size_join hkeep habsorb hne
    have hbefore := h.size_add_length
    rw [List.length_append, List.length_singleton]
    omega

/-! ## Any merges -/

theorem IsUnionOf.mergeAll (h : c.IsUnionOf g pairs) (calls : List (ClassName × ClassName)) :
    (c.mergeAll calls).IsUnionOf g (pairs ++ c.merged calls) := by
  induction calls generalizing c pairs with
  | nil => simpa [Clusters.mergeAll, merged] using h
  | cons call rest ih =>
      obtain ⟨keep, absorb⟩ := call
      rcases c.merge_cases keep absorb with ⟨hkeep, habsorb, hne, hmerge⟩ | ⟨error, hmerge⟩
      · have hrest := ih (h.join hkeep habsorb hne)
        simpa [Clusters.mergeAll, merged, hmerge] using hrest
      · simpa [Clusters.mergeAll, merged, hmerge] using ih h

theorem IsUnionOf.mem_memberSet_iff (h : c.IsUnionOf g pairs) :
    x ∈ c.memberSet key ↔ key ∈ c.keys ∧ Linked pairs x key := by
  constructor
  · intro hx
    have hkey := mem_keys_of_mem hx
    exact ⟨hkey, (h.together_iff x key).1 (Or.inr ⟨key, hx, h.key_mem key hkey⟩)⟩
  · rintro ⟨hkey, hlinked⟩
    have hmem := h.key_mem key hkey
    rcases (h.together_iff x key).2 hlinked with rfl | ⟨key', hx, hkey'⟩
    · exact hmem
    · exact h.isPartition.unique hkey' hmem ▸ hx

/-- The pairs tell the clusters, whatever their order. -/
theorem IsUnionOf.eq (hc : c.IsUnionOf g pairs) (hd : d.IsUnionOf g pairs')
    (hpairs : ∀ pair, pair ∈ pairs ↔ pair ∈ pairs') : c = d := by
  have hlinked : Linked pairs = Linked pairs' := by simp only [Linked, hpairs]
  have hkeys : ∀ key, key ∈ c.keys ↔ key ∈ d.keys := by
    intro key
    rw [hc.mem_keys_iff, hd.mem_keys_iff]
    simp only [hpairs]
  apply eq_of_mem_iff hkeys
  intro key x
  change x ∈ c.memberSet key ↔ x ∈ d.memberSet key
  rw [hc.mem_memberSet_iff, hd.mem_memberSet_iff, hkeys, hlinked]

/-- Only the key of a cluster has not been absorbed. -/
theorem IsUnionOf.not_absorbed_iff (h : c.IsUnionOf g pairs) (hx : x ∈ c.memberSet key) :
    (∀ pair ∈ pairs, pair.2 ≠ x) ↔ x = key := by
  constructor
  · intro hnot
    have hlive := (h.mem_keys_iff x).2 ⟨(h.isPartition.mem_iff x).2 ⟨key, hx⟩, hnot⟩
    exact h.isPartition.unique (h.key_mem x hlive) hx
  · rintro rfl
    exact ((h.mem_keys_iff x).1 (mem_keys_of_mem hx)).2

theorem classCount_eq_sum (c : Clusters) :
    c.classCount = ∑ key ∈ c.keys.toFinset, c.sizeOf key := by
  rw [classCount, total_eq_sum, Table.values, List.map_map]
  change (c.table.entries.map fun entry => entry.2.size).sum = _
  rw [Table.sum_values c.table NameSet.size fun key hkey => List.mem_toFinset.2 hkey]
  apply Finset.sum_congr rfl
  intro key hkey
  obtain ⟨members, hmembers⟩ := Clusters.mem_keys_iff.1 (List.mem_toFinset.1 hkey)
  rw [sizeOf, membersOf_eq hmembers]
  change ((c.members? key).map NameSet.size).getD 0 = _
  rw [hmembers]
  rfl

theorem IsPartition.classCount_eq (h : c.IsPartition g.classSet) :
    c.classCount = g.classCount := by
  have hclasses : g.classes.toFinset.card = g.classes.length :=
    List.toFinset_card_of_nodup g.rows.keys_nodup
  have hcards := h.sum_members fun _ => 1
  simp only [Finset.sum_const, smul_eq_mul, mul_one, ← sizeOf_eq_card] at hcards
  rw [classCount_eq_sum, hcards, hclasses, CouplingGraph.classes, Table.keys, List.length_map]
  rfl

/-- After any merges of any names, of which some may fail, the clusters are not empty, have no
class in common and hold exactly the classes of the graph. Each merge that succeeds leaves one
cluster less. Two classes share a cluster if and only if the pairs that were merged link them, and
the key of a cluster is its one member that was never absorbed. So merges that all succeed may be
made in any other order in which they all succeed. -/
theorem mergeAll_is_union (g : CouplingGraph) (calls : List (ClassName × ClassName)) :
    let start := singletons g
    let c := start.mergeAll calls
    let pairs := start.merged calls
    (∀ key ∈ c.keys, c.membersOf key ≠ []) ∧
    (∀ a ∈ c.keys, ∀ b ∈ c.keys, a ≠ b → List.Disjoint (c.membersOf a) (c.membersOf b)) ∧
    (∀ x, x ∈ g.classes ↔ ∃ key ∈ c.keys, x ∈ c.membersOf key) ∧
    c.classCount = g.classCount ∧
    c.size + pairs.length = g.classCount ∧
    (∀ x ∈ g.classes, ∀ y ∈ g.classes,
      (∃ key, x ∈ c.membersOf key ∧ y ∈ c.membersOf key) ↔
        Relation.EqvGen (fun keep absorb => (keep, absorb) ∈ pairs) x y) ∧
    (∀ key ∈ c.keys, key ∈ c.membersOf key ∧
      ∀ x ∈ c.membersOf key, (∀ pair ∈ pairs, pair.2 ≠ x) ↔ x = key) ∧
    ∀ calls', start.merged calls = calls → start.merged calls' = calls' → calls'.Perm calls →
      start.mergeAll calls' = c := by
  intro start c pairs
  have h : c.IsUnionOf g pairs := (isUnionOf_singletons g).mergeAll calls
  refine ⟨?_, ?_, ?_, h.isPartition.classCount_eq, h.size_add_length, ?_, ?_, ?_⟩
  · intro key hkey
    exact List.ne_nil_of_mem (h.key_mem key hkey)
  · intro a _ b _ hne x hxa hxb
    exact hne (h.isPartition.unique hxa hxb)
  · intro x
    constructor
    · intro hx
      obtain ⟨key, hkey⟩ := (h.isPartition.mem_iff x).1 hx
      exact ⟨key, mem_keys_of_mem hkey, hkey⟩
    · rintro ⟨key, -, hkey⟩
      exact (h.isPartition.mem_iff x).2 ⟨key, hkey⟩
  · intro x hx y _
    constructor
    · intro htogether
      exact (h.together_iff x y).1 (Or.inr htogether)
    · intro hlinked
      rcases (h.together_iff x y).2 hlinked with rfl | htogether
      · obtain ⟨key, hkey⟩ := (h.isPartition.mem_iff x).1 hx
        exact ⟨key, hkey, hkey⟩
      · exact htogether
  · intro key hkey
    exact ⟨h.key_mem key hkey, fun x hx => h.not_absorbed_iff hx⟩
  · intro calls' hall hall' hperm
    have h' : (start.mergeAll calls').IsUnionOf g (start.merged calls') :=
      (isUnionOf_singletons g).mergeAll calls'
    apply h'.eq h
    intro pair
    rw [hall', show pairs = calls from hall]
    exact hperm.mem_iff

theorem mergeAll_is_union_layeredShop :
    let start := singletons CallGraph.Samples.layeredShop.couplingGraph
    start.mergeAll [("CartView", "Logger"), ("Billing", "CartView"), ("Database", "OrderRepo")] =
      start.mergeAll [("Database", "OrderRepo"), ("CartView", "Logger"), ("Billing", "CartView")] ∧
    start.merged [("Billing", "CartView"), ("CartView", "Logger"), ("Database", "OrderRepo")] =
      [("Billing", "CartView"), ("Database", "OrderRepo")] := by
  intro start
  have hall : start.merged
        [("Database", "OrderRepo"), ("CartView", "Logger"), ("Billing", "CartView")] =
      [("Database", "OrderRepo"), ("CartView", "Logger"), ("Billing", "CartView")] := by
    decide +kernel
  have hall' : start.merged
        [("CartView", "Logger"), ("Billing", "CartView"), ("Database", "OrderRepo")] =
      [("CartView", "Logger"), ("Billing", "CartView"), ("Database", "OrderRepo")] := by
    decide +kernel
  obtain ⟨-, -, -, -, -, -, -, horder⟩ := mergeAll_is_union
    CallGraph.Samples.layeredShop.couplingGraph
    [("Database", "OrderRepo"), ("CartView", "Logger"), ("Billing", "CartView")]
  refine ⟨horder _ hall hall' (by decide), ?_⟩
  -- In the third order the second merge comes too late, as the first one has absorbed its key.
  decide +kernel

end Clusters

end ModuleRecovery
