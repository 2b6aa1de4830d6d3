import ModuleRecovery.Binary64
import ModuleRecovery.Name

/-!
Requests: a command, the files it works on, and how much is told of it.
-/

namespace ModuleRecovery

/-- How a result is printed. -/
inductive Format where
  | text
  | json
  deriving DecidableEq, Repr

/-- How a coupling graph is printed: as any result, or drawn. -/
inductive GraphFormat where
  | plain (format : Format)
  | dot
  deriving DecidableEq, Repr

def GraphFormat.ofName? : String → Option GraphFormat
  | "text" => some (.plain .text)
  | "json" => some (.plain .json)
  | "dot" => some .dot
  | _ => none

inductive Command where
  | coupling (source target : ClassName) (format : Format)
  | graph (format : GraphFormat) (withoutIsolated : Bool) (output : Option String)
  | cluster (stepBudget : Option Nat) (format : Format)
  | modules (minCoupling : Option Binary64) (totalClasses stepBudget : Option Nat)
      (format : Format)
  | analyze (minCoupling : Option Binary64) (dot : Option String) (format : Format)
  deriving DecidableEq, Repr

/-- What is to be done, with which files, and how much is to be told of it. -/
structure Request where
  input : String
  settings : Option String
  quiet : Bool
  verbosity : Nat
  command : Command
  deriving DecidableEq, Repr

/-- What the arguments ask for when they are no request. -/
inductive NoRequest where
  | misuse
  | help
  | version
  deriving DecidableEq, Repr

end ModuleRecovery
