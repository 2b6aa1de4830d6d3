import Mathlib.Combinatorics.SimpleGraph.Connectivity.Subgraph
import ModuleRecovery.Proofs.Run

/-!
Clusters and connectivity. The clusters of a run are always a partition of the classes in which
every key is the least member and every cluster holds together by its own calls. Main statement:
hierarchical clustering without a budget ends in exactly the connected components of the graph
of classes with calls between them.
-/

namespace ModuleRecovery

namespace CouplingGraph

/-- Two different names are joined if there are calls between them, in either direction. -/
def coupled (g : CouplingGraph) : SimpleGraph ClassName where
  Adj x y := x ≠ y ∧ 0 < g.weight x y + g.weight y x
  symm := ⟨fun x y h => ⟨h.1.symm, Nat.add_comm (g.weight x y) _ ▸ h.2⟩⟩
  loopless := ⟨fun _ h => h.1 rfl⟩

def classSet (g : CouplingGraph) : Set ClassName := {x | x ∈ g.classes}

/-- The coupled names that are classes of the graph. -/
def classGraph (g : CouplingGraph) : SimpleGraph g.classSet := g.coupled.induce g.classSet

end CouplingGraph

namespace Clusters

variable {c : Clusters} {g : CouplingGraph}

def memberSet (c : Clusters) (key : ClassName) : Set ClassName := {x | x ∈ c.membersOf key}

/-- Each of the classes, and nothing else, is in exactly one cluster. -/
structure IsPartition (c : Clusters) (classes : Set ClassName) : Prop where
  mem_iff : ∀ x, x ∈ classes ↔ ∃ key, x ∈ c.memberSet key
  unique : ∀ {x a b}, x ∈ c.memberSet a → x ∈ c.memberSet b → a = b

/-- Each cluster is known by its least member and is connected by calls between its members. -/
structure IsCohesive (c : Clusters) (g : CouplingGraph) : Prop where
  least : ∀ key ∈ c.keys, IsLeast (c.memberSet key) key
  connected : ∀ key ∈ c.keys, (g.coupled.induce (c.memberSet key)).Connected

theorem mem_keys_of_mem {key x : ClassName} (h : x ∈ c.memberSet key) : key ∈ c.keys :=
  mem_keys_of_mem_membersOf h

/-! ## At the start -/

theorem memberSet_singletons {key : ClassName} (h : key ∈ g.classes) :
    (singletons g).memberSet key = {key} := by
  ext x
  simp [memberSet, membersOf_singletons h]

theorem isPartition_singletons (g : CouplingGraph) : (singletons g).IsPartition g.classSet := by
  constructor
  · intro x
    constructor
    · intro h
      exact ⟨x, mem_membersOf_singletons.2 ⟨rfl, h⟩⟩
    · rintro ⟨key, h⟩
      obtain ⟨rfl, hkey⟩ := mem_membersOf_singletons.1 h
      exact hkey
  · intro x a b ha hb
    exact (mem_membersOf_singletons.1 ha).1.symm.trans (mem_membersOf_singletons.1 hb).1

theorem isCohesive_singletons (g : CouplingGraph) : (singletons g).IsCohesive g := by
  constructor
  · intro key hkey
    rw [memberSet_singletons (keys_singletons g ▸ hkey)]
    exact isLeast_singleton
  · intro key hkey
    rw [memberSet_singletons (keys_singletons g ▸ hkey)]
    exact SimpleGraph.Connected.of_subsingleton

/-! ## After a merge -/

section Join

variable {keep absorb : ClassName} {p : Candidate}

theorem memberSet_join_keep (c : Clusters) (keep absorb : ClassName) :
    (c.join keep absorb).memberSet keep = c.memberSet keep ∪ c.memberSet absorb := by
  ext x
  exact mem_membersOf_join_keep

theorem memberSet_join_of_ne {key : ClassName} (hkeep : key ≠ keep) (habsorb : key ≠ absorb) :
    (c.join keep absorb).memberSet key = c.memberSet key := by
  simp only [memberSet, membersOf_join_of_ne hkeep habsorb]

theorem IsPartition.join {classes : Set ClassName} (h : c.IsPartition classes)
    (keep absorb : ClassName) : (c.join keep absorb).IsPartition classes := by
  constructor
  · intro x
    rw [h.mem_iff]
    constructor
    · rintro ⟨old, hold⟩
      exact ⟨_, mem_membersOf_join.2 ⟨old, hold, rfl⟩⟩
    · rintro ⟨key, hkey⟩
      obtain ⟨old, hold, -⟩ := mem_membersOf_join.1 hkey
      exact ⟨old, hold⟩
  · intro x a b ha hb
    obtain ⟨old, hold, rfl⟩ := mem_membersOf_join.1 ha
    obtain ⟨old', hold', rfl⟩ := mem_membersOf_join.1 hb
    rw [h.unique hold hold']

theorem IsPartition.disjoint_members {classes : Set ClassName} (h : c.IsPartition classes)
    {a b : ClassName} (hne : a ≠ b) :
    Disjoint (c.membersOf a).toFinset (c.membersOf b).toFinset := by
  apply Finset.disjoint_left.2
  intro x hxa hxb
  exact hne (h.unique (List.mem_toFinset.1 hxa) (List.mem_toFinset.1 hxb))

/-- What is summed over all members of all clusters is summed over the classes. -/
theorem IsPartition.sum_members (h : c.IsPartition g.classSet) (f : ClassName → Nat) :
    ∑ key ∈ c.keys.toFinset, ∑ x ∈ (c.membersOf key).toFinset, f x =
      ∑ x ∈ g.classes.toFinset, f x := by
  have hcover : c.keys.toFinset.biUnion (fun key => (c.membersOf key).toFinset) =
      g.classes.toFinset := by
    ext x
    simp only [Finset.mem_biUnion, List.mem_toFinset]
    constructor
    · rintro ⟨key, -, hx⟩
      exact (h.mem_iff x).2 ⟨key, hx⟩
    · intro hx
      obtain ⟨key, hkey⟩ := (h.mem_iff x).1 hx
      exact ⟨key, mem_keys_of_mem hkey, hkey⟩
  rw [← hcover, Finset.sum_biUnion]
  intro a _ b _ hne
  exact h.disjoint_members hne

/-- Two coupled clusters have members with calls between them. -/
theorem IsPartition.exists_coupled {classes : Set ClassName} (h : c.IsPartition classes)
    {a b : ClassName} (hne : a ≠ b) (hpos : c.interCoupling g a b ≠ 0) :
    ∃ x ∈ c.memberSet a, ∃ y ∈ c.memberSet b, g.coupled.Adj x y := by
  rw [Ne, interCoupling_eq_zero_iff] at hpos
  push Not at hpos
  obtain ⟨x, hx, y, hy, hweight⟩ := hpos
  refine ⟨x, hx, y, hy, ?_, Nat.pos_of_ne_zero hweight⟩
  rintro rfl
  exact hne (h.unique hx hy)

/-- The new cluster is connected, as both parts are and there are calls between them; its key
is the smaller one of two least members. -/
theorem IsCohesive.join {classes : Set ClassName} (h : c.IsCohesive g)
    (hpart : c.IsPartition classes) (hp : c.IsClosest g p) :
    (c.join p.keep p.absorb).IsCohesive g := by
  have hne : p.keep ≠ p.absorb := hp.keep_lt.ne
  constructor
  · intro key hkey
    obtain ⟨hold, habsorb⟩ := (mem_keys_join hp.keep_mem hne).1 hkey
    by_cases hkeep : key = p.keep
    · subst hkeep
      rw [memberSet_join_keep]
      refine ⟨Or.inl (h.least _ hold).1, ?_⟩
      rintro x (hx | hx)
      · exact (h.least _ hold).2 hx
      · exact hp.keep_lt.le.trans ((h.least _ hp.absorb_mem).2 hx)
    · rw [memberSet_join_of_ne hkeep habsorb]
      exact h.least key hold
  · intro key hkey
    obtain ⟨hold, habsorb⟩ := (mem_keys_join hp.keep_mem hne).1 hkey
    by_cases hkeep : key = p.keep
    · subst hkeep
      have hpos : c.interCoupling g p.keep p.absorb ≠ 0 :=
        hp.coupling_eq ▸ hp.coupling_pos.ne'
      obtain ⟨x, hx, y, hy, hadj⟩ := hpart.exists_coupled hne hpos
      rw [memberSet_join_keep]
      exact SimpleGraph.connected_induce_union (h.connected _ hold).preconnected
        (h.connected _ hp.absorb_mem).preconnected hx hy hadj
    · rw [memberSet_join_of_ne hkeep habsorb]
      exact h.connected key hold

end Join

/-! ## At the end -/

section End

variable (hpart : c.IsPartition g.classSet) (hcohesive : c.IsCohesive g)

include hpart hcohesive

/-- Where no two clusters are coupled, no walk leaves its cluster; within a cluster there is a
walk between any two members. -/
theorem together_iff_reachable (huncoupled : c.Uncoupled g) (x y : g.classSet) :
    (∃ key, x.1 ∈ c.memberSet key ∧ y.1 ∈ c.memberSet key) ↔ g.classGraph.Reachable x y := by
  constructor
  · rintro ⟨key, hx, hy⟩
    have hsub : c.memberSet key ⊆ g.classSet := fun z hz => (hpart.mem_iff z).2 ⟨key, hz⟩
    have hreach := (hcohesive.connected key (mem_keys_of_mem hx)).preconnected ⟨x, hx⟩ ⟨y, hy⟩
    exact hreach.map (SimpleGraph.induceHomOfLE g.coupled hsub).toHom
  · intro hreach
    rw [SimpleGraph.reachable_iff_reflTransGen] at hreach
    induction hreach with
    | refl =>
        obtain ⟨key, hx⟩ := (hpart.mem_iff x).1 x.2
        exact ⟨key, hx, hx⟩
    | @tail z w _ hadj ih =>
        obtain ⟨key, hx, hz⟩ := ih
        obtain ⟨key', hw⟩ := (hpart.mem_iff w).1 w.2
        have hkey : key = key' := by
          by_contra hne
          have hzero := huncoupled key (mem_keys_of_mem hz) key' (mem_keys_of_mem hw) hne
          have hpos : 0 < g.mutualWeight z w := hadj.2
          have := interCoupling_eq_zero_iff.1 hzero z hz w hw
          omega
        exact ⟨key, hx, hkey ▸ hw⟩

/-- Uncoupled clusters are the connected components. -/
theorem clusters_eq_components (huncoupled : c.Uncoupled g) :
    {s | ∃ key ∈ c.keys, s = c.memberSet key} =
      {s | ∃ C : g.classGraph.ConnectedComponent, s = Subtype.val '' C.supp} := by
  have hcluster (v : g.classSet) (key : ClassName) (hv : v.1 ∈ c.memberSet key) :
      c.memberSet key = Subtype.val '' (g.classGraph.connectedComponentMk v).supp := by
    ext x
    constructor
    · intro hx
      have hclass : x ∈ g.classSet := (hpart.mem_iff x).2 ⟨key, hx⟩
      have hreach := (together_iff_reachable hpart hcohesive huncoupled ⟨x, hclass⟩ v).1
        ⟨key, hx, hv⟩
      exact ⟨⟨x, hclass⟩, SimpleGraph.ConnectedComponent.sound hreach, rfl⟩
    · rintro ⟨u, hu, rfl⟩
      have hreach := SimpleGraph.ConnectedComponent.exact hu
      obtain ⟨key', hu', hv'⟩ :=
        (together_iff_reachable hpart hcohesive huncoupled u v).2 hreach
      exact hpart.unique hv' hv ▸ hu'
  ext s
  constructor
  · rintro ⟨key, hkey, rfl⟩
    have hmem : key ∈ c.memberSet key := (hcohesive.least key hkey).1
    have hclass : key ∈ g.classSet := (hpart.mem_iff key).2 ⟨key, hmem⟩
    exact ⟨_, hcluster ⟨key, hclass⟩ key hmem⟩
  · rintro ⟨C, rfl⟩
    induction C using SimpleGraph.ConnectedComponent.ind with
    | h v =>
        obtain ⟨key, hv⟩ := (hpart.mem_iff v).1 v.2
        exact ⟨key, mem_keys_of_mem hv, (hcluster v key hv).symm⟩

theorem size_le_one_iff_components (huncoupled : c.Uncoupled g) :
    c.size ≤ 1 ↔ Subsingleton g.classGraph.ConnectedComponent := by
  have htogether := together_iff_reachable hpart hcohesive huncoupled
  rw [size_le_one_iff]
  constructor
  · intro hone
    refine ⟨SimpleGraph.ConnectedComponent.ind₂ fun u v => ?_⟩
    obtain ⟨a, hu⟩ := (hpart.mem_iff u).1 u.2
    obtain ⟨b, hv⟩ := (hpart.mem_iff v).1 v.2
    have hab : a = b := hone a (mem_keys_of_mem hu) b (mem_keys_of_mem hv)
    apply SimpleGraph.ConnectedComponent.sound
    exact (htogether u v).1 ⟨a, hu, hab ▸ hv⟩
  · intro hsub a ha b hb
    have hmem {key : ClassName} (hkey : key ∈ c.keys) : key ∈ c.memberSet key :=
      (hcohesive.least key hkey).1
    have hclass {key : ClassName} (hkey : key ∈ c.keys) : key ∈ g.classSet :=
      (hpart.mem_iff key).2 ⟨key, hmem hkey⟩
    have hreach := SimpleGraph.ConnectedComponent.exact
      (hsub.elim (g.classGraph.connectedComponentMk ⟨a, hclass ha⟩)
        (g.classGraph.connectedComponentMk ⟨b, hclass hb⟩))
    obtain ⟨key, hakey, hbkey⟩ := (htogether _ _).2 hreach
    exact (hpart.unique (hmem ha) hakey).trans (hpart.unique hbkey (hmem hb))

end End

end Clusters

namespace Rule

/-- Merges of closest pairs keep a partition of the classes into cohesive clusters. -/
theorem Reaches.cohesive {rule : Rule} {g : CouplingGraph} {c : Clusters} {steps : List MergeStep}
    (hreaches : rule.Reaches g (.singletons g) steps c) :
    c.IsPartition g.classSet ∧ c.IsCohesive g := by
  induction hreaches with
  | start => exact ⟨Clusters.isPartition_singletons g, Clusters.isCohesive_singletons g⟩
  | merge made _ haccepts ih =>
      obtain ⟨hpart, hcohesive⟩ := ih
      exact ⟨hpart.join _ _, hcohesive.join hpart haccepts.isClosest⟩

theorem Path.cohesive {rule : Rule} {g : CouplingGraph} {made : Nat} {final : Clusters}
    {merges : List (MergeStep × Clusters)}
    (path : rule.Path g made (.singletons g) merges final) :
    final.IsPartition g.classSet ∧ final.IsCohesive g :=
  (path.reaches .start).cohesive

/-- Only a lack of coupling stops hierarchical clustering above one cluster, where there is no
budget. -/
theorem uncoupled_of_stops {g : CouplingGraph} {made : Nat} {c : Clusters} {reason : StopReason}
    (h : Rule.hierarchical.Stops g none made c reason) :
    c.Uncoupled g ∧
      (c.size ≤ 1 ∧ reason = .singleCluster ∨ 1 < c.size ∧ reason = .noCoupling) := by
  cases reason with
  | singleCluster =>
      obtain ⟨-, hsize⟩ := h
      refine ⟨?_, Or.inl ⟨hsize, rfl⟩⟩
      intro a ha b hb hne
      exact absurd (Clusters.size_le_one_iff.1 hsize a ha b hb) hne
  | noCoupling =>
      obtain ⟨hsize, -, hpair⟩ := h
      exact ⟨Clusters.closestPair_eq_none_iff.1 hpair, Or.inr ⟨hsize, rfl⟩⟩
  | moduleLimit bound => obtain ⟨⟨_, ⟨⟩⟩, _⟩ := h
  | stepBudget b => obtain ⟨_, ⟨⟩, _⟩ := h
  | belowThreshold keep absorb average minimum => obtain ⟨⟨_, ⟨⟩⟩, _⟩ := h

/-- Hierarchical clustering without a budget ends in exactly the connected components: classes
share a cluster if and only if there is a chain of calls between them, each cluster is known by
its least member, each step leaves one cluster less, and the reason to stop tells whether there
is at most one component. -/
theorem hierarchical_run_components (g : CouplingGraph) :
    let r := Rule.hierarchical.run g none (.singletons g)
    (∀ x y : g.classSet, (∃ key, x.1 ∈ r.final.membersOf key ∧ y.1 ∈ r.final.membersOf key) ↔
      g.classGraph.Reachable x y) ∧
    ({s | ∃ key ∈ r.final.keys, s = {x | x ∈ r.final.membersOf key}} =
      {s | ∃ C : g.classGraph.ConnectedComponent, s = Subtype.val '' C.supp}) ∧
    (∀ key ∈ r.final.keys, IsLeast {x | x ∈ r.final.membersOf key} key) ∧
    r.outcome.mergeCount + r.final.size = g.classCount ∧
    (Subsingleton g.classGraph.ConnectedComponent → r.stop = .singleCluster) ∧
    (¬Subsingleton g.classGraph.ConnectedComponent → r.stop = .noCoupling) := by
  intro r
  have path := Rule.hierarchical.path_run g none (.singletons g)
  obtain ⟨hpart, hcohesive⟩ := path.cohesive
  have hsize := path.size_add_length
  obtain ⟨huncoupled, hstop⟩ :=
    uncoupled_of_stops (Rule.hierarchical.stops_run g none (.singletons g))
  have hone := Clusters.size_le_one_iff_components hpart hcohesive huncoupled
  refine ⟨Clusters.together_iff_reachable hpart hcohesive huncoupled,
    Clusters.clusters_eq_components hpart hcohesive huncoupled, hcohesive.least, ?_, ?_, ?_⟩
  · rw [mergeCount_run, Nat.add_comm, hsize]
    exact Clusters.size_singletons g
  · intro hsub
    rcases hstop with ⟨-, h⟩ | ⟨h, -⟩
    · exact h
    · exact absurd (hone.2 hsub) (Nat.not_le.2 h)
  · intro hsub
    rcases hstop with ⟨h, -⟩ | ⟨-, h⟩
    · exact absurd (hone.1 h) hsub
    · exact h

end Rule

end ModuleRecovery
