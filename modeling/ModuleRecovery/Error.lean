import ModuleRecovery.Clusters
import ModuleRecovery.Coupling
import ModuleRecovery.Settings

/-!
Everything that can go wrong, by the part of the work it belongs to.
-/

namespace ModuleRecovery

/-- Why there is no call graph. -/
inductive InputError where
  | unreadable (path : String) (cause : String)
  | malformed (detail : String)
  deriving DecidableEq, Repr

def InputError.message : InputError → String
  | unreadable path cause => "IO error reading " ++ path ++ ": " ++ cause
  | malformed detail => "Malformed call graph JSON: " ++ detail

/-- What the system says of a file that could not be read, or the reader of a text that is no call
graph. It is told once more after the message. -/
def InputError.cause : InputError → String
  | unreadable _ cause => cause
  | malformed detail => detail

/-- A result could not be written to its file. -/
structure OutputError where
  cause : String
  deriving DecidableEq, Repr

def OutputError.message (error : OutputError) : String := "IO error: " ++ error.cause

inductive Error where
  | input (error : InputError)
  | coupling (error : MissingClass)
  | cluster (error : MergeError)
  | settings (error : SettingsError)
  | output (error : OutputError)
  deriving DecidableEq, Repr

def Error.message : Error → String
  | input error => "Input error: " ++ error.message
  | coupling error => "Coupling error: " ++ error.message
  | cluster error => "Cluster error: " ++ error.message
  | settings error => "Configuration error: " ++ error.message
  | output error => "Render error: " ++ error.message

end ModuleRecovery
