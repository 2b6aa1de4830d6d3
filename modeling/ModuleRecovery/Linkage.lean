import ModuleRecovery.Binary64
import ModuleRecovery.Clusters

/-!
How strongly clusters are coupled, in sums and in averages, and which two of them are merged
next. Sums of weights are exact, as if numbers of 64 bits could not overflow. Main statement: the
chosen pair consists of two live keys, the smaller one first, so that joining them leaves one
cluster less.
-/

namespace ModuleRecovery

/-- Two clusters that might be merged. The key that stays comes first in name order. -/
structure Candidate where
  keep : ClassName
  absorb : ClassName
  coupling : Nat
  deriving DecidableEq, Repr

/-- The pairs of two entries of a list, by the first and then by the second. -/
def pairsInOrder {α : Type} : List α → List (α × α)
  | [] => []
  | x :: rest => rest.map (fun y => (x, y)) ++ pairsInOrder rest

theorem mem_pairsInOrder {α : Type} {R : α → α → Prop} {l : List α} (h : l.Pairwise R) {a b : α}
    (hab : (a, b) ∈ pairsInOrder l) : a ∈ l ∧ b ∈ l ∧ R a b := by
  induction l with
  | nil => simp [pairsInOrder] at hab
  | cons x rest ih =>
      obtain ⟨hx, hrest⟩ := List.pairwise_cons.1 h
      simp only [pairsInOrder, List.mem_append, List.mem_map, Prod.mk.injEq] at hab
      rcases hab with ⟨y, hy, rfl, rfl⟩ | hab
      · exact ⟨List.mem_cons_self, List.mem_cons_of_mem _ hy, hx y hy⟩
      · obtain ⟨ha, hb, hr⟩ := ih hrest hab
        exact ⟨List.mem_cons_of_mem _ ha, List.mem_cons_of_mem _ hb, hr⟩

namespace CouplingGraph

/-- The calls between two classes in both directions. -/
def mutualWeight (g : CouplingGraph) (a b : ClassName) : Nat := g.weight a b + g.weight b a

/-- The weights from each listed class to each other one, for every ordered pair of places in
the list that hold different classes. -/
def innerWeights (g : CouplingGraph) (members : List ClassName) : List Nat :=
  members.flatMap fun x => (members.filter fun y => x ≠ y).map fun y => g.weight x y

/-- The mean of the inner weights; zero where there are none. -/
def averageCoupling (g : CouplingGraph) (members : List ClassName) : Binary64 :=
  let weights := g.innerWeights members
  if weights.length = 0 then .zero else .quotient (total weights) weights.length

end CouplingGraph

namespace Clusters

/-- The calls between the members of two clusters in both directions; zero for an unknown key. -/
def interCoupling (c : Clusters) (g : CouplingGraph) (a b : ClassName) : Nat :=
  total ((c.membersOf a).flatMap fun x => (c.membersOf b).map fun y => g.mutualWeight x y)

/-- All pairs of clusters in key order, with their couplings. -/
def candidates (c : Clusters) (g : CouplingGraph) : List Candidate :=
  (pairsInOrder c.keys).map fun (a, b) => ⟨a, b, c.interCoupling g a b⟩

/-- Takes a candidate over the best so far only if it is more strongly coupled, so that of
equals the first one stays. -/
def stronger (best : Option Candidate) (candidate : Candidate) : Option Candidate :=
  match best with
  | none => some candidate
  | some b => if b.coupling < candidate.coupling then some candidate else some b

/-- The first of the most strongly coupled pairs, if any pair is coupled at all. -/
def closestPair (c : Clusters) (g : CouplingGraph) : Option Candidate :=
  ((c.candidates g).foldl stronger none).filter fun best => 0 < best.coupling

/-- The average coupling within a cluster; zero for an unknown key. -/
def average (c : Clusters) (g : CouplingGraph) (key : ClassName) : Binary64 :=
  g.averageCoupling (c.membersOf key)

/-- The average coupling that two clusters would have within them together. -/
def mergedAverage (c : Clusters) (g : CouplingGraph) (a b : ClassName) : Binary64 :=
  g.averageCoupling (c.union a b).toList

private theorem foldl_stronger_mem {l : List Candidate} {start : Option Candidate}
    {p : Candidate} (h : l.foldl stronger start = some p) : start = some p ∨ p ∈ l := by
  induction l generalizing start with
  | nil => exact Or.inl h
  | cons x rest ih =>
      rcases ih h with h | h
      · cases start with
        | none => exact Or.inr (by simp [stronger] at h; simp [h])
        | some b =>
            simp only [stronger] at h
            split at h
            · exact Or.inr (by simp at h; simp [h])
            · exact Or.inl h
      · exact Or.inr (List.mem_cons_of_mem _ h)

theorem keys_sorted (c : Clusters) : c.keys.Pairwise (· < ·) := by
  simpa [keys, Table.keys, List.pairwise_map] using c.table.sorted

/-- The chosen pair are two live keys in name order. -/
theorem mem_of_closestPair {c : Clusters} {g : CouplingGraph} {p : Candidate}
    (h : c.closestPair g = some p) : p.keep ∈ c.keys ∧ p.absorb ∈ c.keys ∧ p.keep < p.absorb := by
  rw [closestPair, Option.filter_eq_some_iff] at h
  rcases foldl_stronger_mem h.1 with h | h
  · cases h
  · obtain ⟨⟨a, b⟩, hab, rfl⟩ := List.mem_map.1 h
    exact mem_pairsInOrder c.keys_sorted hab

/-- Joining two live clusters leaves fewer clusters. -/
theorem size_join_lt {c : Clusters} {keep absorb : ClassName} (hkeep : keep ∈ c.keys)
    (habsorb : absorb ∈ c.keys) (hne : keep ≠ absorb) : (c.join keep absorb).size < c.size := by
  have hmem : keep ∈ (c.table.erase absorb).keys := Table.mem_keys_erase.2 ⟨hkeep, hne⟩
  show ((c.table.erase absorb).insert keep _).size < c.table.size
  rw [Table.size_insert_of_mem _ hmem]
  exact Table.size_erase_lt habsorb

theorem size_join_closestPair_lt {c : Clusters} {g : CouplingGraph} {p : Candidate}
    (h : c.closestPair g = some p) : (c.join p.keep p.absorb).size < c.size := by
  obtain ⟨hkeep, habsorb, hlt⟩ := mem_of_closestPair h
  exact size_join_lt hkeep habsorb fun heq => String.lt_irrefl _ (heq ▸ hlt)

end Clusters

/-- How strongly one cluster is coupled within. -/
structure ModuleCoupling where
  key : ClassName
  size : Nat
  average : Binary64
  deriving DecidableEq, Repr

/-- The average coupling of every cluster, by key. -/
def Clusters.averages (c : Clusters) (g : CouplingGraph) : List ModuleCoupling :=
  c.keys.map fun key => ⟨key, c.sizeOf key, c.average g key⟩

end ModuleRecovery
