import ModuleRecovery.Table

/-!
Coupling graphs: how many calls go from one class to another. Every class is a key, also one
that calls nothing. A graph that is built call by call holds no entry of a class for itself and
no weight of zero; one that is read from a text may hold both, and targets that are no key.
-/

namespace ModuleRecovery

/-- The weights by source and then by target. They and their sums are exact: as numbers of 64 bits
they would be the same unless a sum went beyond that. -/
structure CouplingGraph where
  rows : Table (Table Nat)
  deriving DecidableEq, Repr

/-- A positive weight and its two classes. -/
structure CouplingEdge where
  source : ClassName
  target : ClassName
  weight : Nat
  deriving DecidableEq, Repr

/-- A graph on numbered nodes: an arc is its two node numbers and a weight. -/
structure Digraph where
  nodes : List ClassName
  arcs : List (Nat × Nat × Nat)
  deriving DecidableEq, Repr

/-- The sum of some counts. -/
def total (counts : List Nat) : Nat := counts.foldr (· + ·) 0

namespace CouplingGraph

def empty : CouplingGraph := ⟨.empty⟩

instance : Inhabited CouplingGraph := ⟨empty⟩

/-- Makes `name` a class of the graph; one that is there keeps its weights. -/
def ensureClass (g : CouplingGraph) (name : ClassName) : CouplingGraph :=
  ⟨g.rows.insertNew name .empty⟩

/-- Counts one call. A call within a class adds no weight, but makes the class known. -/
def recordCall (g : CouplingGraph) (source target : ClassName) : CouplingGraph :=
  if source = target then g.ensureClass source
  else
    ⟨((g.ensureClass target).ensureClass source).rows.update source fun row =>
      (row.getD .empty).update target fun weight => weight.getD 0 + 1⟩

/-- Counts `times` calls; none at all leaves the graph as it is. -/
def recordCalls (g : CouplingGraph) (source target : ClassName) : Nat → CouplingGraph
  | 0 => g
  | times + 1 => (g.recordCalls source target times).recordCall source target

/-- The calls from one class to another; zero where nothing is known. -/
def weight (g : CouplingGraph) (source target : ClassName) : Nat :=
  ((g.rows.get? source).bind (·.get? target)).getD 0

def outgoing? (g : CouplingGraph) (name : ClassName) : Option (Table Nat) := g.rows.get? name

def contains (g : CouplingGraph) (name : ClassName) : Bool := g.rows.contains name

def classes (g : CouplingGraph) : List ClassName := g.rows.keys

def classCount (g : CouplingGraph) : Nat := g.rows.size

def isEmpty (g : CouplingGraph) : Bool := g.rows.isEmpty

/-- The positive weights, by source and then by target. -/
def edges (g : CouplingGraph) : List CouplingEdge :=
  g.rows.entries.flatMap fun (source, row) =>
    (row.entries.filter fun entry => 0 < entry.2).map fun (target, weight) =>
      ⟨source, target, weight⟩

def edgeCount (g : CouplingGraph) : Nat := g.edges.length

def totalWeight (g : CouplingGraph) : Nat := total (g.edges.map (·.weight))

/-- The classes at neither end of an edge. -/
def isolatedClasses (g : CouplingGraph) : List ClassName :=
  g.classes.filter fun name => g.edges.all fun edge => edge.source ≠ name ∧ edge.target ≠ name

/-- The classes numbered in name order, and the edges between two of them. -/
def toDigraph (g : CouplingGraph) : Digraph where
  nodes := g.classes
  arcs := g.edges.filterMap fun edge => do
    let source ← g.classes.idxOf? edge.source
    let target ← g.classes.idxOf? edge.target
    return (source, target, edge.weight)

end CouplingGraph

/-- Whether no arc starts or ends at the node; an arc from the node to itself does both. -/
def Digraph.isLone (d : Digraph) (node : Nat) : Bool :=
  d.arcs.all fun (source, target, _) => source ≠ node ∧ target ≠ node

end ModuleRecovery
