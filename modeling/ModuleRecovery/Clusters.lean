import ModuleRecovery.CouplingGraph

/-!
Clusters of classes, each known by a key. They start as one cluster for each class and change
only by merging, so that together they hold the same classes all the time. Clusters read from a
text may also be empty or share classes.
-/

namespace ModuleRecovery

structure Clusters where
  table : Table NameSet
  deriving DecidableEq, Repr

/-- Why two clusters cannot be merged. -/
inductive MergeError where
  | unknownCluster (key : ClassName)
  | selfMerge (key : ClassName)
  deriving DecidableEq, Repr

def MergeError.message : MergeError → String
  | unknownCluster key => "Unknown cluster: " ++ key
  | selfMerge key => "Cannot merge cluster " ++ key ++ " with itself"

namespace Clusters

def empty : Clusters := ⟨.empty⟩

instance : Inhabited Clusters := ⟨empty⟩

/-- One cluster for each class, with the class as its key. -/
def singletons (g : CouplingGraph) : Clusters :=
  ⟨⟨g.rows.entries.map fun e => (e.1, .singleton e.1),
    by simpa [List.pairwise_map] using g.rows.sorted⟩⟩

def size (c : Clusters) : Nat := c.table.size

def isEmpty (c : Clusters) : Bool := c.table.isEmpty

def keys (c : Clusters) : List ClassName := c.table.keys

def members? (c : Clusters) (key : ClassName) : Option NameSet := c.table.get? key

/-- The members as a list, empty for an unknown key. -/
def membersOf (c : Clusters) (key : ClassName) : List ClassName :=
  ((c.members? key).map (·.toList)).getD []

def sizeOf (c : Clusters) (key : ClassName) : Nat := (c.membersOf key).length

/-- The sizes of all clusters together; a class in two of them counts twice. -/
def classCount (c : Clusters) : Nat := total (c.table.values.map (·.size))

/-- The member sets by key. -/
def partition (c : Clusters) : List NameSet := c.table.values

/-- The members that two clusters would have together. -/
def union (c : Clusters) (a b : ClassName) : NameSet :=
  ((c.members? a).getD .empty).union ((c.members? b).getD .empty)

/-- Puts the members of `absorb` into the cluster `keep` and takes the key `absorb` away. -/
def join (c : Clusters) (keep absorb : ClassName) : Clusters :=
  ⟨(c.table.erase absorb).insert keep (c.union keep absorb)⟩

/-- Joins two clusters and tells the size of the result. A failed merge changes nothing. -/
def merge (c : Clusters) (keep absorb : ClassName) : Except MergeError (Nat × Clusters) :=
  if keep = absorb then .error (.selfMerge keep)
  else if ¬c.table.contains keep then .error (.unknownCluster keep)
  else if ¬c.table.contains absorb then .error (.unknownCluster absorb)
  else .ok ((c.join keep absorb).sizeOf keep, c.join keep absorb)

/-- Takes a cluster out and tells its members, if there is one. -/
def take (c : Clusters) (key : ClassName) : Option NameSet × Clusters :=
  (c.members? key, ⟨c.table.erase key⟩)

/-- A merge step by step: its answer, and the clusters as the last step leaves them. The one cluster
is taken out before the other is looked up, so that a failure after that would lose it. -/
def mergeInPlace (c : Clusters) (keep absorb : ClassName) : Except MergeError Nat × Clusters :=
  if keep = absorb then (.error (.selfMerge keep), c)
  else if ¬c.table.contains keep then (.error (.unknownCluster keep), c)
  else
    match c.take absorb with
    | (none, left) => (.error (.unknownCluster absorb), left)
    | (some absorbed, left) =>
        match left.members? keep with
        | none => (.error (.unknownCluster keep), left)
        | some kept =>
            let both := kept.union absorbed
            (.ok both.size, ⟨left.table.insert keep both⟩)

end Clusters

end ModuleRecovery
