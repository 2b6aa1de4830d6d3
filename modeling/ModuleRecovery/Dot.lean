import ModuleRecovery.CouplingGraph

/-!
Drawings of coupling graphs in the language of Graphviz.
-/

namespace ModuleRecovery

namespace Dot

/-- A name inside quotes: backslashes and quotes are escaped, all else stands for itself. -/
def escapeChar (c : Char) : List Char :=
  if c = '\\' then ['\\', '\\'] else if c = '"' then ['\\', '"'] else [c]

def quote (name : ClassName) : List Char :=
  '"' :: name.toList.flatMap escapeChar ++ ['"']

/-- A line with a node alone. -/
def nodeLine (name : ClassName) : List Char :=
  "    ".toList ++ quote name ++ ";\n".toList

/-- A line with an edge and its weight. -/
def edgeLine (source target : ClassName) (weight : Nat) : List Char :=
  "    ".toList ++ quote source ++ " -> ".toList ++ quote target ++ " [label=\"".toList ++
    Nat.toDigits 10 weight ++ "\"];\n".toList

end Dot

/-- The graph as a drawing: the classes without an edge if they are wanted, then the edges. -/
def CouplingGraph.dot (g : CouplingGraph) (name : String) (includeIsolated : Bool) : String :=
  let d := g.toDigraph
  let nodes :=
    if includeIsolated then
      (d.nodes.mapIdx fun i node => if d.isLone i then Dot.nodeLine node else []).flatten
    else []
  let edges := d.arcs.flatMap fun (source, target, weight) =>
    Dot.edgeLine (d.nodes.getD source "") (d.nodes.getD target "") weight
  String.ofList ("digraph ".toList ++ name.toList ++ " \x7b\n".toList ++ nodes ++ edges ++
    "\x7d\n".toList)

end ModuleRecovery
