import ModuleRecovery.Table

/-!
Call graphs: which method calls which, and which class a method belongs to. A method without an
owner is unresolved, and a call with an unresolved end counts in no metric.
-/

namespace ModuleRecovery

/-- The calls of each method in the order of their call sites, repeats kept, and the owners. -/
structure CallGraph where
  calls : Table (List MethodName)
  owners : Table ClassName
  deriving DecidableEq, Repr

/-- A call whose two ends have an owner. -/
structure ResolvedCall where
  caller : MethodName
  callerClass : ClassName
  callee : MethodName
  calleeClass : ClassName
  deriving DecidableEq, Repr

def ResolvedCall.crossesClasses (call : ResolvedCall) : Bool :=
  call.callerClass ≠ call.calleeClass

/-- How large a call graph is. -/
structure CallGraphStats where
  methods : Nat
  edges : Nat
  resolvedEdges : Nat
  crossClassEdges : Nat
  unresolvedEdges : Nat
  classes : Nat
  deriving DecidableEq, Repr

namespace CallGraph

def empty : CallGraph := ⟨.empty, .empty⟩

instance : Inhabited CallGraph := ⟨empty⟩

/-- Gives `method` an owner, in place of the one it had, and keeps its calls. -/
def declare (g : CallGraph) (method : MethodName) (owner : ClassName) : CallGraph where
  calls := g.calls.insertNew method []
  owners := g.owners.insert method owner

/-- Adds one call site; the caller need not be declared. -/
def addCall (g : CallGraph) (caller callee : MethodName) : CallGraph :=
  { g with calls := g.calls.update caller fun callees => callees.getD [] ++ [callee] }

/-- Declares `owner.method` for each listed method. -/
def declareClass (g : CallGraph) (owner : ClassName) (methods : List String) : CallGraph :=
  methods.foldl (fun g method => g.declare (owner ++ "." ++ method) owner) g

/-- Adds the same call site `times` times. -/
def addCalls (g : CallGraph) (caller callee : MethodName) : Nat → CallGraph
  | 0 => g
  | times + 1 => (g.addCalls caller callee times).addCall caller callee

def classOf (g : CallGraph) (method : MethodName) : Option ClassName := g.owners.get? method

/-- Every call, by caller and then in the order of the call sites. -/
def edges (g : CallGraph) : List (MethodName × MethodName) :=
  g.calls.entries.flatMap fun (caller, callees) => callees.map fun callee => (caller, callee)

/-- The call with its classes, if both ends have one. -/
def resolve (g : CallGraph) (edge : MethodName × MethodName) : Option ResolvedCall := do
  let callerClass ← g.classOf edge.1
  let calleeClass ← g.classOf edge.2
  return ⟨edge.1, callerClass, edge.2, calleeClass⟩

def resolvedCalls (g : CallGraph) : List ResolvedCall := g.edges.filterMap g.resolve

/-- The resolved calls that leave their class. -/
def crossClassCalls (g : CallGraph) : List ResolvedCall :=
  g.resolvedCalls.filter (·.crossesClasses)

def unresolvedEdges (g : CallGraph) : List (MethodName × MethodName) :=
  g.edges.filter fun edge => (g.resolve edge).isNone

/-- Every method that calls or is called. -/
def methods (g : CallGraph) : List MethodName :=
  g.calls.entries.flatMap fun (caller, callees) => caller :: callees

/-- The owners of the methods that call or are called. -/
def classes (g : CallGraph) : NameSet := .ofList (g.methods.filterMap g.classOf)

def stats (g : CallGraph) : CallGraphStats where
  methods := g.calls.size
  edges := g.edges.length
  resolvedEdges := g.resolvedCalls.length
  crossClassEdges := g.crossClassCalls.length
  unresolvedEdges := g.unresolvedEdges.length
  classes := g.classes.size

end CallGraph

end ModuleRecovery
