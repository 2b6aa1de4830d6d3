import ModuleRecovery.Proofs.InnerWeights

/-!
Graphs and clusters under other names. A renaming that keeps different names apart keeps every
weight, so whatever is counted over classes is the same over their images. Clusters may be known by
other keys there, as the least member of a cluster need not go to the least image. Main statements:
clusters that mirror others have the same couplings, averages and sizes, and joining two of them
mirrors joining the other two, in either order.
-/

namespace ModuleRecovery

/-! ## Tables and sets -/

/-- The table with the image of each key in place of the key. -/
def Table.rename {β : Type} (f : String → String) (t : Table β) : Table β :=
  .ofList (t.entries.map fun e => (f e.1, e.2))

def NameSet.rename (f : String → String) (s : NameSet) : NameSet := .ofList (s.toList.map f)

theorem Table.get?_rename {β : Type} {f : String → String} {t : Table β}
    (hf : Set.InjOn f {key | key ∈ t.keys}) {key' : String} {value : β} :
    (t.rename f).get? key' = some value ↔ ∃ key, f key = key' ∧ t.get? key = some value := by
  have hnodup : ((t.entries.map fun e => (f e.1, e.2)).map Prod.fst).Nodup := by
    have hkeys : (t.entries.map fun e => (f e.1, e.2)).map Prod.fst = t.keys.map f := by
      simp [keys, Function.comp_def]
    rw [hkeys]
    exact t.keys_nodup.map_on fun x hx y hy heq => hf hx hy heq
  rw [rename, get?_ofList hnodup, List.mem_map]
  simp only [Prod.exists, Prod.mk.injEq, get?_eq_some_iff]
  constructor
  · rintro ⟨key, _, hmem, rfl, rfl⟩
    exact ⟨key, rfl, hmem⟩
  · rintro ⟨key, rfl, hmem⟩
    exact ⟨key, value, hmem, rfl, rfl⟩

theorem Table.mem_keys_rename {β : Type} {f : String → String} {t : Table β}
    (hf : Set.InjOn f {key | key ∈ t.keys}) {key' : String} :
    key' ∈ (t.rename f).keys ↔ ∃ key ∈ t.keys, f key = key' := by
  simp only [mem_keys_iff, get?_rename hf]
  constructor
  · rintro ⟨value, key, rfl, hget⟩
    exact ⟨key, ⟨value, hget⟩, rfl⟩
  · rintro ⟨key, ⟨value, hget⟩, rfl⟩
    exact ⟨value, key, rfl, hget⟩

theorem NameSet.mem_rename {f : String → String} {s : NameSet} {x' : String} :
    x' ∈ s.rename f ↔ ∃ x ∈ s.toList, f x = x' := by
  rw [rename, mem_ofList, List.mem_map]

/-! ## Graphs -/

namespace CouplingGraph

variable {f : ClassName → ClassName} {g : CouplingGraph} {a b x : ClassName}

/-- All that have a name in the graph: its classes and the targets of its entries. -/
def names (g : CouplingGraph) : Set ClassName :=
  {x | x ∈ g.classes ∨ ∃ a weight, g.stored? a x = some weight}

/-- The graph with the image of each name in place of the name. -/
def rename (f : ClassName → ClassName) (g : CouplingGraph) : CouplingGraph :=
  ⟨(g.rows.map (·.rename f)).rename f⟩

theorem mem_names_of_mem_classes (h : x ∈ g.classes) : x ∈ g.names := Or.inl h

section Rename

variable (hf : Set.InjOn f g.names)

include hf

private theorem injOn_rows :
    Set.InjOn f {key | key ∈ (g.rows.map (·.rename f)).keys} := by
  rw [Table.keys_map]
  exact hf.mono fun x hx => mem_names_of_mem_classes hx

theorem mem_classes_rename {x' : ClassName} :
    x' ∈ (g.rename f).classes ↔ ∃ x ∈ g.classes, f x = x' := by
  refine (Table.mem_keys_rename (injOn_rows hf)).trans ?_
  rw [Table.keys_map]
  rfl

theorem stored?_rename {a' b' : ClassName} {weight : Nat} :
    (g.rename f).stored? a' b' = some weight ↔
      ∃ a b, f a = a' ∧ f b = b' ∧ g.stored? a b = some weight := by
  have hrow {a : ClassName} {row : Table Nat} (h : g.rows.get? a = some row) :
      Set.InjOn f {key | key ∈ row.keys} := by
    apply hf.mono
    intro x hx
    obtain ⟨weight, hweight⟩ := Table.mem_keys_iff.1 hx
    exact Or.inr ⟨a, weight, by simp [stored?, outgoing?, h, hweight]⟩
  simp only [stored?, outgoing?, Option.bind_eq_some_iff, rename, Table.get?_rename (injOn_rows hf),
    Table.get?_map, Option.map_eq_some_iff]
  constructor
  · rintro ⟨_, ⟨a, rfl, row, hget, rfl⟩, hentry⟩
    obtain ⟨b, rfl, hweight⟩ := (Table.get?_rename (hrow hget)).1 hentry
    exact ⟨a, b, rfl, rfl, row, hget, hweight⟩
  · rintro ⟨a, b, rfl, rfl, row, hget, hweight⟩
    exact ⟨_, ⟨a, rfl, row, hget, rfl⟩, (Table.get?_rename (hrow hget)).2 ⟨b, rfl, hweight⟩⟩

theorem weight_rename (ha : a ∈ g.names) (hb : b ∈ g.names) :
    (g.rename f).weight (f a) (f b) = g.weight a b := by
  have hentry : (g.rename f).stored? (f a) (f b) = g.stored? a b := by
    apply Option.ext
    intro weight
    rw [stored?_rename hf]
    constructor
    · rintro ⟨x, y, hx, hy, hweight⟩
      have hxa : x = a := hf (mem_names_of_mem_classes (mem_classes_of_stored? hweight)) ha hx
      have hyb : y = b := hf (Or.inr ⟨x, weight, hweight⟩) hb hy
      rwa [hxa, hyb] at hweight
    · intro hweight
      exact ⟨a, b, rfl, rfl, hweight⟩
  rw [weight_eq_getD, weight_eq_getD, hentry]

theorem innerWeight_rename {s : Finset ClassName} (hs : ∀ x ∈ s, x ∈ g.names) :
    (g.rename f).innerWeight (s.image f) = g.innerWeight s := by
  have hinj : Set.InjOn f s := fun x hx y hy => hf (hs x hx) (hs y hy)
  simp only [innerWeight, Finset.sum_filter]
  rw [Finset.sum_image hinj]
  apply Finset.sum_congr rfl
  intro x hx
  rw [Finset.sum_image hinj]
  apply Finset.sum_congr rfl
  intro y hy
  simp only [weight_rename hf (hs x hx) (hs y hy), hinj.ne_iff hx hy]

theorem averageCoupling_rename {members members' : List ClassName} (hnodup : members.Nodup)
    (hnodup' : members'.Nodup) (himage : members'.toFinset = members.toFinset.image f)
    (hmembers : ∀ x ∈ members.toFinset, x ∈ g.names) :
    (g.rename f).averageCoupling members' = g.averageCoupling members := by
  have hinj : Set.InjOn f (members.toFinset : Set ClassName) :=
    fun x hx y hy => hf (hmembers x hx) (hmembers y hy)
  have hlength : members'.length = members.length := by
    rw [← List.toFinset_card_of_nodup hnodup', himage, Finset.card_image_of_injOn hinj,
      List.toFinset_card_of_nodup hnodup]
  rw [averageCoupling_eq _ hnodup', averageCoupling_eq _ hnodup, hlength, himage,
    innerWeight_rename hf hmembers]

end Rename

end CouplingGraph

/-! ## Clusters -/

namespace Clusters

variable {f κ : ClassName → ClassName} {c c' d : Clusters} {g : CouplingGraph}
  {a b a' b' key : ClassName}

/-- The clusters with the image of each name in place of the name, the keys included. -/
def rename (f : ClassName → ClassName) (c : Clusters) : Clusters :=
  ⟨(c.table.map (NameSet.rename f)).rename f⟩

/-- The second clusters are the images of the first ones, with their own keys: `κ` tells under
which key the image of a cluster is. -/
structure Mirrors (f κ : ClassName → ClassName) (c c' : Clusters) : Prop where
  mem_keys_iff : ∀ key', key' ∈ c'.keys ↔ ∃ key ∈ c.keys, κ key = key'
  injOn : Set.InjOn κ {key | key ∈ c.keys}
  memberSet_eq : ∀ key ∈ c.keys, c'.memberSet (κ key) = f '' c.memberSet key

/-- The keys of the images of two clusters, in either order. -/
def SamePair (κ : ClassName → ClassName) (a b a' b' : ClassName) : Prop :=
  a' = κ a ∧ b' = κ b ∨ a' = κ b ∧ b' = κ a

theorem memberSet_of_not_mem (h : key ∉ c.keys) : c.memberSet key = ∅ := by
  apply Set.eq_empty_of_forall_notMem
  intro x hx
  exact h (mem_keys_of_mem hx)

theorem IsPartition.mem_names (hpart : c.IsPartition g.classSet) :
    ∀ x ∈ (c.membersOf key).toFinset, x ∈ g.names := by
  intro x hx
  exact CouplingGraph.mem_names_of_mem_classes
    ((hpart.mem_iff x).2 ⟨key, List.mem_toFinset.1 hx⟩)

theorem IsPartition.injOn_members (hpart : c.IsPartition g.classSet)
    (hf : Set.InjOn f g.names) : Set.InjOn f ((c.membersOf key).toFinset : Set ClassName) :=
  fun x hx y hy => hf (hpart.mem_names x hx) (hpart.mem_names y hy)

theorem IsCohesive.mem_names (h : c.IsCohesive g) (hpart : c.IsPartition g.classSet)
    (hkey : key ∈ c.keys) : key ∈ g.names :=
  hpart.mem_names key (List.mem_toFinset.2 (h.least key hkey).1)

namespace Mirrors

section Keys

variable (m : c.Mirrors f κ c')

include m

theorem mem_keys (h : key ∈ c.keys) : κ key ∈ c'.keys := (m.mem_keys_iff _).2 ⟨key, h, rfl⟩

theorem toFinset_membersOf (h : key ∈ c.keys) :
    (c'.membersOf (κ key)).toFinset = (c.membersOf key).toFinset.image f := by
  ext x
  have hx := Set.ext_iff.1 (m.memberSet_eq key h) x
  rw [List.mem_toFinset, Finset.mem_image]
  simp only [List.mem_toFinset]
  exact hx

theorem size_eq : c'.size = c.size := by
  have hkeys : c'.keys.toFinset = c.keys.toFinset.image κ := by
    ext key'
    rw [List.mem_toFinset, m.mem_keys_iff, Finset.mem_image]
    simp only [List.mem_toFinset]
  have hinj : Set.InjOn κ (c.keys.toFinset : Set ClassName) := by
    simpa using m.injOn
  rw [size_eq_card, size_eq_card, hkeys, Finset.card_image_of_injOn hinj]

/-- Clusters that mirror the same ones under the same keys are equal. -/
theorem eq (m' : c.Mirrors f κ d) : c' = d := by
  have hkeys (key' : ClassName) : key' ∈ c'.keys ↔ key' ∈ d.keys := by
    rw [m.mem_keys_iff, m'.mem_keys_iff]
  apply eq_of_mem_iff hkeys
  intro key' x
  change x ∈ c'.memberSet key' ↔ x ∈ d.memberSet key'
  by_cases hlive : key' ∈ c'.keys
  · obtain ⟨key, hkey, rfl⟩ := (m.mem_keys_iff key').1 hlive
    rw [m.memberSet_eq key hkey, m'.memberSet_eq key hkey]
  · rw [memberSet_of_not_mem hlive, memberSet_of_not_mem (mt (hkeys key').2 hlive)]

/-- The images of other clusters are not the two. -/
private theorem ne_of_samePair (ha : a ∈ c.keys) (hb : b ∈ c.keys) (hpair : SamePair κ a b a' b')
    (hkey : key ∈ c.keys) (hka : key ≠ a) (hkb : key ≠ b) : κ key ≠ a' ∧ κ key ≠ b' := by
  have ha' : κ key ≠ κ a := mt (m.injOn hkey ha) hka
  have hb' : κ key ≠ κ b := mt (m.injOn hkey hb) hkb
  rcases hpair with ⟨rfl, rfl⟩ | ⟨rfl, rfl⟩
  · exact ⟨ha', hb'⟩
  · exact ⟨hb', ha'⟩

/-- Joining the images of two clusters, in either order, mirrors joining the two. The new cluster
has the key that stays there. -/
theorem join (ha : a ∈ c.keys) (hb : b ∈ c.keys) (hne : a ≠ b) (hpair : SamePair κ a b a' b') :
    (c.join a b).Mirrors f (Function.update κ a a') (c'.join a' b') := by
  have hκ : κ a ≠ κ b := mt (m.injOn ha hb) hne
  have hne' : a' ≠ b' := by
    rcases hpair with ⟨rfl, rfl⟩ | ⟨rfl, rfl⟩
    · exact hκ
    · exact hκ.symm
  have hmem : a' ∈ c'.keys := by
    rcases hpair with ⟨rfl, -⟩ | ⟨rfl, -⟩
    · exact m.mem_keys ha
    · exact m.mem_keys hb
  have hnew : Function.update κ a a' a = a' := Function.update_self a a' κ
  have hold {key : ClassName} (h : key ≠ a) : Function.update κ a a' key = κ key :=
    Function.update_of_ne h a' κ
  refine ⟨?_, ?_, ?_⟩
  · intro key'
    rw [mem_keys_join hmem hne', m.mem_keys_iff]
    simp only [mem_keys_join ha hne]
    constructor
    · rintro ⟨⟨key, hkey, rfl⟩, hkeyb⟩
      by_cases heq : κ key = a'
      · exact ⟨a, ⟨ha, hne⟩, hnew.trans heq.symm⟩
      · have hka : key ≠ a := by
          rintro rfl
          rcases hpair with ⟨h, -⟩ | ⟨-, h⟩
          · exact heq h.symm
          · exact hkeyb h.symm
        have hkb : key ≠ b := by
          rintro rfl
          rcases hpair with ⟨-, h⟩ | ⟨h, -⟩
          · exact hkeyb h.symm
          · exact heq h.symm
        exact ⟨key, ⟨hkey, hkb⟩, hold hka⟩
    · rintro ⟨key, ⟨hkey, hkb⟩, rfl⟩
      by_cases hka : key = a
      · rw [hka, hnew]
        exact ⟨(m.mem_keys_iff a').1 hmem, hne'⟩
      · rw [hold hka]
        exact ⟨⟨key, hkey, rfl⟩, (m.ne_of_samePair ha hb hpair hkey hka hkb).2⟩
  · intro x hx y hy heq
    obtain ⟨hx, hxb⟩ := (mem_keys_join ha hne).1 hx
    obtain ⟨hy, hyb⟩ := (mem_keys_join ha hne).1 hy
    by_cases hxa : x = a
    · by_cases hya : y = a
      · rw [hxa, hya]
      · rw [hxa, hnew, hold hya] at heq
        exact absurd heq.symm (m.ne_of_samePair ha hb hpair hy hya hyb).1
    · by_cases hya : y = a
      · rw [hya, hnew, hold hxa] at heq
        exact absurd heq (m.ne_of_samePair ha hb hpair hx hxa hxb).1
      · rw [hold hxa, hold hya] at heq
        exact m.injOn hx hy heq
  · intro key hkey
    obtain ⟨hkey, hkb⟩ := (mem_keys_join ha hne).1 hkey
    by_cases hka : key = a
    · subst hka
      rw [hnew, memberSet_join_keep, memberSet_join_keep, Set.image_union,
        ← m.memberSet_eq key ha, ← m.memberSet_eq b hb]
      rcases hpair with ⟨rfl, rfl⟩ | ⟨rfl, rfl⟩
      · rfl
      · exact Set.union_comm _ _
    · obtain ⟨hka', hkb'⟩ := m.ne_of_samePair ha hb hpair hkey hka hkb
      rw [hold hka, memberSet_join_of_ne hka' hkb', memberSet_join_of_ne hka hkb]
      exact m.memberSet_eq key hkey

end Keys

/-! ## What is counted -/

section Counts

variable (m : c.Mirrors f κ c') (hf : Set.InjOn f g.names) (hpart : c.IsPartition g.classSet)

include m hf hpart

theorem sizeOf_eq (h : key ∈ c.keys) : c'.sizeOf (κ key) = c.sizeOf key := by
  rw [sizeOf_eq_card, sizeOf_eq_card, m.toFinset_membersOf h,
    Finset.card_image_of_injOn (hpart.injOn_members hf)]

theorem interCoupling_eq (ha : a ∈ c.keys) (hb : b ∈ c.keys) :
    c'.interCoupling (g.rename f) (κ a) (κ b) = c.interCoupling g a b := by
  have hnames {key x : ClassName} (hx : x ∈ (c.membersOf key).toFinset) : x ∈ g.names :=
    hpart.mem_names x hx
  have hinj {key : ClassName} : Set.InjOn f (c.membersOf key).toFinset := hpart.injOn_members hf
  rw [interCoupling_eq_sum, interCoupling_eq_sum, m.toFinset_membersOf ha,
    m.toFinset_membersOf hb, Finset.sum_image hinj]
  apply Finset.sum_congr rfl
  intro x hx
  rw [Finset.sum_image hinj]
  apply Finset.sum_congr rfl
  intro y hy
  have hxy := CouplingGraph.weight_rename hf (hnames hx) (hnames hy)
  have hyx := CouplingGraph.weight_rename hf (hnames hy) (hnames hx)
  simp only [CouplingGraph.mutualWeight, hxy, hyx]

theorem mergedAverage_eq (ha : a ∈ c.keys) (hb : b ∈ c.keys) (hpair : SamePair κ a b a' b') :
    c'.mergedAverage (g.rename f) a' b' = c.mergedAverage g a b := by
  apply CouplingGraph.averageCoupling_rename hf (c.union_nodup a b) (c'.union_nodup a' b')
  · rw [toFinset_union, toFinset_union, Finset.image_union, ← m.toFinset_membersOf ha,
      ← m.toFinset_membersOf hb]
    rcases hpair with ⟨rfl, rfl⟩ | ⟨rfl, rfl⟩
    · rfl
    · exact Finset.union_comm _ _
  · intro x hx
    rw [toFinset_union] at hx
    rcases Finset.mem_union.1 hx with hx | hx
    · exact hpart.mem_names x hx
    · exact hpart.mem_names x hx

end Counts

end Mirrors

/-! ## The same keys renamed -/

private theorem injOn_table (hinj : Set.InjOn f {key | key ∈ c.keys}) :
    Set.InjOn f {key | key ∈ (c.table.map (NameSet.rename f)).keys} := by
  rw [Table.keys_map]
  exact hinj

theorem membersOf_rename (hinj : Set.InjOn f {key | key ∈ c.keys}) (h : key ∈ c.keys)
    {x' : ClassName} :
    x' ∈ (c.rename f).membersOf (f key) ↔ ∃ x ∈ c.membersOf key, f x = x' := by
  obtain ⟨members, hmembers⟩ := mem_keys_iff.1 h
  have hsome : (c.rename f).members? (f key) = some (members.rename f) := by
    apply (Table.get?_rename (injOn_table hinj)).2
    refine ⟨key, rfl, ?_⟩
    have hget : c.table.get? key = some members := hmembers
    rw [Table.get?_map, hget]
    rfl
  rw [membersOf_eq hsome, membersOf_eq hmembers]
  exact NameSet.mem_rename

theorem mirrors_rename (hinj : Set.InjOn f {key | key ∈ c.keys}) : c.Mirrors f f (c.rename f) where
  mem_keys_iff := by
    intro key'
    refine (Table.mem_keys_rename (injOn_table hinj)).trans ?_
    rw [Table.keys_map]
    rfl
  injOn := hinj
  memberSet_eq := by
    intro key hkey
    ext x'
    exact membersOf_rename hinj hkey

theorem mirrors_singletons (hf : Set.InjOn f g.names) :
    (singletons g).Mirrors f f (singletons (g.rename f)) where
  mem_keys_iff := by
    intro key'
    rw [keys_singletons, keys_singletons]
    exact CouplingGraph.mem_classes_rename hf
  injOn := by
    rw [keys_singletons]
    exact hf.mono fun x hx => CouplingGraph.mem_names_of_mem_classes hx
  memberSet_eq := by
    intro key hkey
    rw [keys_singletons] at hkey
    rw [memberSet_singletons hkey, Set.image_singleton]
    exact memberSet_singletons ((CouplingGraph.mem_classes_rename hf).2 ⟨key, hkey, rfl⟩)

end Clusters

end ModuleRecovery
