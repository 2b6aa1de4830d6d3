import ModuleRecovery.Decimal

/-!
The settings of an analysis, and which of them are refused.
-/

namespace ModuleRecovery

structure Settings where
  /-- The least average coupling that a merged module may have. -/
  minCouplingAverage : Binary64
  /-- The number of classes that bounds the modules; absent, those of the coupling graph. -/
  totalClasses : Option Nat
  /-- The most merges of one run; absent, as many as there are. -/
  stepBudget : Option Nat
  /-- Whether classes without edges are drawn. -/
  includeIsolated : Bool
  deriving DecidableEq, Repr

/-- A setting that has a meaning for no run. -/
inductive InvalidSetting where
  | minimum (value : Binary64)
  | noSteps
  deriving DecidableEq, Repr

def InvalidSetting.message : InvalidSetting → String
  | minimum value =>
      "min_coupling_average must be a non-negative number, got " ++ NumberStyle.prose.write value
  | noSteps => "step_budget must be at least 1 when set"

/-- Why there are no settings to work with. -/
inductive SettingsError where
  | notFound (path : String)
  | invalid (reason : String)
  | unreadable (detail : String)
  deriving DecidableEq, Repr

def SettingsError.message : SettingsError → String
  | notFound path => "Config file not found: " ++ path
  | invalid reason => "Invalid config: " ++ reason
  | unreadable detail => "Parse error: " ++ detail

namespace Settings

/-- What holds where nothing is set. -/
def standard : Settings where
  minCouplingAverage := .ofNat 1
  totalClasses := none
  stepBudget := none
  includeIsolated := true

instance : Inhabited Settings := ⟨standard⟩

/-- A minimum has to be finite and not below zero, and a budget has to allow a merge. -/
def validate (s : Settings) : Except InvalidSetting Unit :=
  if ¬s.minCouplingAverage.isFinite ∨ s.minCouplingAverage < .zero then
    .error (.minimum s.minCouplingAverage)
  else if s.stepBudget = some 0 then .error .noSteps
  else .ok ()

/-- The settings themselves if they are valid. -/
def checked (s : Settings) : Except SettingsError Settings :=
  match s.validate with
  | .ok () => .ok s
  | .error fault => .error (.invalid fault.message)

end Settings

end ModuleRecovery
