import ModuleRecovery.Binary64
import ModuleRecovery.CallGraph
import ModuleRecovery.CouplingGraph

/-!
The two coupling metrics of a call graph: the share of all calls between classes that go from
one given class to another, and the graph of all such calls counted.
-/

namespace ModuleRecovery

/-- Which of the two classes of a query is meant. -/
inductive ClassArgument where
  | first
  | second
  deriving DecidableEq, Repr

def ClassArgument.word : ClassArgument → String
  | first => "first"
  | second => "second"

/-- A query named no class. -/
structure MissingClass where
  argument : ClassArgument
  deriving DecidableEq, Repr

def MissingClass.message (error : MissingClass) : String :=
  "Class name cannot be empty (" ++ error.argument.word ++ " argument)"

namespace CallGraph

/-- The resolved calls from methods of `a` to methods of `b`. -/
def callsBetween (g : CallGraph) (a b : ClassName) : List ResolvedCall :=
  g.resolvedCalls.filter fun call => call.callerClass = a ∧ call.calleeClass = b

/-- The calls from `a` to `b` as a share of all calls between classes; zero if there are none. -/
def pairwiseCoupling (g : CallGraph) (a b : ClassName) : Except MissingClass Binary64 :=
  if a = "" then .error ⟨.first⟩
  else if b = "" then .error ⟨.second⟩
  else if g.crossClassCalls = [] then .ok .zero
  else .ok (.quotient (g.callsBetween a b).length g.crossClassCalls.length)

/-- The coupling graph: the classes of the call graph, then every resolved call counted. -/
def couplingGraph (g : CallGraph) : CouplingGraph :=
  g.resolvedCalls.foldl (fun graph call => graph.recordCall call.callerClass call.calleeClass)
    (g.classes.toList.foldl .ensureClass .empty)

end CallGraph

end ModuleRecovery
