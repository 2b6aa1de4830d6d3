import ModuleRecovery.CallGraph

/-!
Small call graphs to try an analysis on.
-/

namespace ModuleRecovery.CallGraph.Samples

/-- Declares the classes, then adds the calls. -/
def build (classes : List (ClassName × List String))
    (calls : List (MethodName × MethodName × Nat)) : CallGraph :=
  let declared := classes.foldl (fun g (owner, methods) => g.declareClass owner methods) empty
  calls.foldl (fun g (caller, callee, times) => g.addCalls caller callee times) declared

/-- Two classes that call each other once. -/
def pingPong : CallGraph :=
  build [("A", ["f"]), ("B", ["g"])] [("A.f", "B.g", 1), ("B.g", "A.f", 1)]

/-- Three classes that call nothing but themselves. -/
def isolatedTrio : CallGraph :=
  build [("A", ["f", "g"]), ("B", ["h"]), ("C", ["i"])] [("A.f", "A.g", 2), ("B.h", "B.h", 1)]

/-- Two classes with ten calls between them, and one without any. -/
def strongPairWithLoner : CallGraph :=
  build [("A", ["f"]), ("B", ["g"]), ("C", ["h"])] [("A.f", "B.g", 6), ("B.g", "A.f", 4)]

/-- A shop in layers: views, storage, billing, a logger, and one call to an unknown library. -/
def layeredShop : CallGraph :=
  build
    [("CartView", ["render", "onClick"]), ("CartController", ["add", "checkout"]),
      ("OrderRepo", ["save", "find"]), ("Database", ["exec"]), ("Billing", ["charge"]),
      ("PaymentGateway", ["send"]), ("Logger", ["info"])]
    [("CartView.onClick", "CartController.add", 3), ("CartController.add", "CartView.render", 3),
      ("CartController.checkout", "Billing.charge", 1),
      ("CartController.checkout", "OrderRepo.save", 1), ("OrderRepo.save", "Database.exec", 4),
      ("OrderRepo.find", "Database.exec", 2), ("Billing.charge", "PaymentGateway.send", 5),
      ("Billing.charge", "Logger.info", 1), ("PaymentGateway.send", "Http.post", 1)]

/-- The samples by name. -/
def all : List (String × CallGraph) :=
  [("ping_pong", pingPong), ("isolated_trio", isolatedTrio),
    ("strong_pair_with_loner", strongPairWithLoner), ("layered_shop", layeredShop)]

end ModuleRecovery.CallGraph.Samples
