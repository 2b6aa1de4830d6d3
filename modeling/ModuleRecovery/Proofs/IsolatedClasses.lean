import ModuleRecovery.Proofs.Run

/-!
Classes without calls. Hierarchical clustering never merges such a class, and it goes on as long as
any pair is coupled, so the class is a cluster of its own from the start to the end and stands in
nobody's way. Main statement: with some classes more that have no calls, all runs make the same
steps, and each ends in the same clusters with one more for each of these classes.
-/

namespace ModuleRecovery

/-- The first graph has some more classes than the second one, without calls. -/
structure CouplingGraph.AddsIsolated (g h : CouplingGraph) (names : List ClassName) : Prop where
  mem_classes_iff : ∀ x, x ∈ g.classes ↔ x ∈ names ∨ x ∈ h.classes
  not_mem_classes : ∀ x ∈ names, x ∉ h.classes
  weight_eq : ∀ x y, g.weight x y = h.weight x y
  mutualWeight_eq_zero : ∀ x ∈ names, ∀ y, g.mutualWeight x y = 0

namespace Clusters

/-- The first clusters are the second ones with a cluster more for each of some names. -/
structure AddsSingletons (c d : Clusters) (names : List ClassName) : Prop where
  not_mem_keys : ∀ name ∈ names, name ∉ d.keys
  members?_eq : ∀ key,
    c.members? key = if key ∈ names then some (.singleton key) else d.members? key

theorem addsSingletons_singletons {g h : CouplingGraph} {names : List ClassName}
    (hg : g.AddsIsolated h names) : (singletons g).AddsSingletons (singletons h) names where
  not_mem_keys := by
    intro name hname
    rw [keys_singletons]
    exact hg.not_mem_classes name hname
  members?_eq := by
    intro key
    rw [members?_singletons, members?_singletons]
    by_cases hname : key ∈ names
    · simp [hg.mem_classes_iff, hname]
    · simp [hg.mem_classes_iff, hname]

namespace AddsSingletons

variable {c d : Clusters} {g h : CouplingGraph} {names : List ClassName} {a b key : ClassName}
  {p : Candidate}

theorem members?_of_mem_keys (hc : c.AddsSingletons d names) (hkey : key ∈ d.keys) :
    c.members? key = d.members? key := by
  rw [hc.members?_eq, if_neg]
  intro hname
  exact hc.not_mem_keys key hname hkey

theorem membersOf_eq (hc : c.AddsSingletons d names) (hkey : key ∈ d.keys) :
    c.membersOf key = d.membersOf key := by
  rw [membersOf, hc.members?_of_mem_keys hkey, membersOf]

theorem mem_keys_iff (hc : c.AddsSingletons d names) :
    key ∈ c.keys ↔ key ∈ names ∨ key ∈ d.keys := by
  rw [Clusters.mem_keys_iff, hc.members?_eq, Clusters.mem_keys_iff]
  by_cases hname : key ∈ names
  · simp [hname]
  · simp [hname]

/-! ## The choice of a pair -/

section Choice

variable (hg : g.AddsIsolated h names) (hc : c.AddsSingletons d names)

include hg hc

theorem interCoupling_eq (ha : a ∈ d.keys) (hb : b ∈ d.keys) :
    c.interCoupling g a b = d.interCoupling h a b := by
  simp only [interCoupling, hc.membersOf_eq ha, hc.membersOf_eq hb, CouplingGraph.mutualWeight,
    hg.weight_eq]

private theorem mem_keys_of_coupled_left (ha : a ∈ c.keys) (hpos : 0 < c.interCoupling g a b) :
    a ∈ d.keys := by
  rcases hc.mem_keys_iff.1 ha with hname | hkey
  · have hmembers : c.membersOf a = [a] :=
      Clusters.membersOf_eq ((hc.members?_eq a).trans (if_pos hname))
    have hzero : c.interCoupling g a b = 0 := by
      rw [interCoupling_eq_zero_iff, hmembers]
      intro x hx y _
      rw [List.mem_singleton.1 hx]
      exact hg.mutualWeight_eq_zero a hname y
    omega
  · exact hkey

/-- Only the old clusters are coupled at all. -/
theorem mem_keys_of_coupled (ha : a ∈ c.keys) (hb : b ∈ c.keys)
    (hpos : 0 < c.interCoupling g a b) : a ∈ d.keys ∧ b ∈ d.keys := by
  have hpos' := hpos
  rw [interCoupling_comm] at hpos'
  exact ⟨mem_keys_of_coupled_left hg hc ha hpos, mem_keys_of_coupled_left hg hc hb hpos'⟩

theorem isClosest_right (hp : c.IsClosest g p) : d.IsClosest h p := by
  have hpos : 0 < c.interCoupling g p.keep p.absorb := hp.coupling_eq ▸ hp.coupling_pos
  obtain ⟨hkeep, habsorb⟩ := hc.mem_keys_of_coupled hg hp.keep_mem hp.absorb_mem hpos
  have hold {key : ClassName} (hkey : key ∈ d.keys) : key ∈ c.keys :=
    hc.mem_keys_iff.2 (Or.inr hkey)
  constructor
  case keep_mem => exact hkeep
  case absorb_mem => exact habsorb
  case keep_lt => exact hp.keep_lt
  case coupling_eq => exact hp.coupling_eq.trans (hc.interCoupling_eq hg hkeep habsorb)
  case coupling_pos => exact hp.coupling_pos
  case coupling_max =>
    intro a ha b hb hne
    rw [← hc.interCoupling_eq hg ha hb]
    exact hp.coupling_max a (hold ha) b (hold hb) hne
  case first =>
    intro a ha b hb hlt heq
    rw [← hc.interCoupling_eq hg ha hb] at heq
    exact hp.first a (hold ha) b (hold hb) hlt heq

/-- A further cluster has no coupling, so it is neither stronger than the closest pair nor as
strong. -/
theorem isClosest_left (hp : d.IsClosest h p) : c.IsClosest g p := by
  have hold {key : ClassName} (hkey : key ∈ d.keys) : key ∈ c.keys :=
    hc.mem_keys_iff.2 (Or.inr hkey)
  constructor
  case keep_mem => exact hold hp.keep_mem
  case absorb_mem => exact hold hp.absorb_mem
  case keep_lt => exact hp.keep_lt
  case coupling_eq =>
    exact hp.coupling_eq.trans (hc.interCoupling_eq hg hp.keep_mem hp.absorb_mem).symm
  case coupling_pos => exact hp.coupling_pos
  case coupling_max =>
    intro a ha b hb hne
    rcases Nat.eq_zero_or_pos (c.interCoupling g a b) with hzero | hpos
    · rw [hzero]
      exact Nat.zero_le _
    · obtain ⟨ha, hb⟩ := hc.mem_keys_of_coupled hg ha hb hpos
      rw [hc.interCoupling_eq hg ha hb]
      exact hp.coupling_max a ha b hb hne
  case first =>
    intro a ha b hb hlt heq
    obtain ⟨ha, hb⟩ := hc.mem_keys_of_coupled hg ha hb (heq ▸ hp.coupling_pos)
    rw [hc.interCoupling_eq hg ha hb] at heq
    exact hp.first a ha b hb hlt heq

theorem isClosest_iff : c.IsClosest g p ↔ d.IsClosest h p :=
  ⟨hc.isClosest_right hg, hc.isClosest_left hg⟩

end Choice

/-! ## After a merge -/

theorem union_eq (hc : c.AddsSingletons d names) (ha : a ∈ d.keys) (hb : b ∈ d.keys) :
    c.union a b = d.union a b := by
  rw [union, hc.members?_of_mem_keys ha, hc.members?_of_mem_keys hb, union]

theorem join (hc : c.AddsSingletons d names) (ha : a ∈ d.keys) (hb : b ∈ d.keys) (hne : a ≠ b) :
    (c.join a b).AddsSingletons (d.join a b) names where
  not_mem_keys := by
    intro name hname hmem
    exact hc.not_mem_keys name hname ((mem_keys_join ha hne).1 hmem).1
  members?_eq := by
    intro key
    have hnew {key' : ClassName} (hkey' : key' ∈ d.keys) : key' ∉ names := fun hname =>
      hc.not_mem_keys key' hname hkey'
    rw [members?_join, members?_join, hc.union_eq ha hb, hc.members?_eq]
    by_cases hkeep : key = a
    · simp [hkeep, hnew ha]
    · by_cases habsorb : key = b
      · simp [habsorb, hnew hb]
      · simp [hkeep, habsorb]

/-! ## The listed clusters -/

theorem partition_perm (hc : c.AddsSingletons d names) (hnames : names.Nodup) :
    c.partition.Perm (d.partition ++ names.map .singleton) := by
  let added : List (ClassName × NameSet) := names.map fun name => (name, .singleton name)
  have hentries : c.table.entries.Perm (d.table.entries ++ added) := by
    have hadded : added.Nodup := hnames.map fun a b heq => (Prod.mk.inj heq).1
    have hdisjoint : d.table.entries.Disjoint added := by
      rintro ⟨key, members⟩ hold hnew
      obtain ⟨name, hname, heq⟩ := List.mem_map.1 hnew
      obtain ⟨rfl, -⟩ := Prod.mk.inj heq
      exact hc.not_mem_keys name hname (List.mem_map.2 ⟨_, hold, rfl⟩)
    rw [List.perm_ext_iff_of_nodup c.table.entries_nodup
      (d.table.entries_nodup.append hadded hdisjoint)]
    rintro ⟨key, members⟩
    rw [List.mem_append, ← Table.get?_eq_some_iff, ← Table.get?_eq_some_iff]
    have hmembers := hc.members?_eq key
    rw [members?, members?] at hmembers
    rw [hmembers]
    by_cases hname : key ∈ names
    · have hnone : d.table.get? key = none := Table.get?_eq_none_iff.2 (hc.not_mem_keys key hname)
      simp [added, hname, hnone, eq_comm]
    · simp [added, hname]
  have hvalues := hentries.map Prod.snd
  simpa [added, partition, Table.values, Function.comp_def] using hvalues

end AddsSingletons

end Clusters

namespace Rule

variable {g h : CouplingGraph} {budget : Option Nat} {made : Nat} {c d : Clusters}
  {names : List ClassName} {pair : Candidate}

/-- Hierarchical clustering accepts the closest pair, which it finds in two clusters or more. -/
theorem hierarchical_accepts_iff :
    Rule.hierarchical.Accepts g c pair ↔ c.IsClosest g pair := by
  constructor
  · exact Accepts.isClosest
  · intro hp
    refine ⟨?_, Clusters.closestPair_eq_some_iff.2 hp, by simp⟩
    by_contra hone
    exact hp.keep_lt.ne
      (Clusters.size_le_one_iff.1 (not_lt.1 hone) _ hp.keep_mem _ hp.absorb_mem)

theorem record_of_addsSingletons (hc : c.AddsSingletons d names) (made : Nat)
    (hp : d.IsClosest h pair) :
    Rule.hierarchical.record g made c pair = Rule.hierarchical.record h made d pair := by
  have hkeep : pair.keep ∈ (d.join pair.keep pair.absorb).keys :=
    (Clusters.mem_keys_join hp.keep_mem hp.keep_lt.ne).2 ⟨hp.keep_mem, hp.keep_lt.ne⟩
  have hmembers := (hc.join hp.keep_mem hp.absorb_mem hp.keep_lt.ne).membersOf_eq hkeep
  simp only [record, Clusters.sizeOf, hmembers]
  rfl

section Runs

variable (hg : g.AddsIsolated h names)

include hg

theorem accepts_of_addsSingletons (hc : c.AddsSingletons d names) :
    Rule.hierarchical.Accepts g c pair ↔ Rule.hierarchical.Accepts h d pair := by
  rw [hierarchical_accepts_iff, hierarchical_accepts_iff]
  exact hc.isClosest_iff hg

theorem runFrom_of_addsSingletons (hc : c.AddsSingletons d names) :
    let r := Rule.hierarchical.runFrom g budget made c
    let r' := Rule.hierarchical.runFrom h budget made d
    r.outcome.steps = r'.outcome.steps ∧ r.final.AddsSingletons r'.final names := by
  induction made, c using Rule.runFrom.induct .hierarchical g budget generalizing d with
  | case1 made c reason hnext =>
      -- The reasons to stop may differ: only one cluster may be left without the further classes.
      cases hnext' : Rule.hierarchical.next h budget made d with
      | stop reason' =>
          rw [runFrom_of_stop hnext, runFrom_of_stop hnext']
          exact ⟨rfl, hc⟩
      | merge pair average =>
          obtain ⟨haccepts', -, hbudget⟩ := accepts_of_next hnext'
          have haccepts := (accepts_of_addsSingletons hg hc).2 haccepts'
          cases hnext.symm.trans (next_of_accepts haccepts hbudget)
  | case2 made c pair average hnext hlt after =>
      rename_i ih
      obtain ⟨haccepts, -, hbudget⟩ := accepts_of_next hnext
      have haccepts' := (accepts_of_addsSingletons hg hc).1 haccepts
      have hp := haccepts'.isClosest
      have hjoin := hc.join hp.keep_mem hp.absorb_mem hp.keep_lt.ne
      obtain ⟨hsteps, hfinal⟩ := ih hjoin
      have hrecord := record_of_addsSingletons (g := g) hc made hp
      rw [runFrom_of_merge hnext, runFrom_of_merge (next_of_accepts haccepts' hbudget)]
      exact ⟨congrArg₂ List.cons hrecord hsteps, hfinal⟩

/-- Whatever the budgets, one run after the other makes the same steps, and each ends in the same
clusters with one more for each of the further classes. -/
theorem runAll_of_addsSingletons (budgets : List (Option Nat)) (hc : c.AddsSingletons d names) :
    List.Forall₂ (fun r r' => r.outcome.steps = r'.outcome.steps ∧
        r.final.AddsSingletons r'.final names)
      (Rule.hierarchical.runAll g budgets c) (Rule.hierarchical.runAll h budgets d) := by
  induction budgets generalizing c d with
  | nil => exact .nil
  | cons budget budgets ih =>
      have hfirst : let r := Rule.hierarchical.run g budget c
          let r' := Rule.hierarchical.run h budget d
          r.outcome.steps = r'.outcome.steps ∧ r.final.AddsSingletons r'.final names :=
        runFrom_of_addsSingletons hg hc
      exact .cons hfirst (ih hfirst.2)

end Runs

end Rule

end ModuleRecovery
