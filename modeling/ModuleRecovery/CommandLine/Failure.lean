import ModuleRecovery.Error
import ModuleRecovery.Text

/-!
Why a command did not do its work, as it is told to the user, and the exit code that goes with
it.
-/

namespace ModuleRecovery

inductive Failure where
  | callGraph (path : String) (error : InputError)
  | settings (path : String) (error : SettingsError)
  /-- The settings are refused after the arguments have changed them. -/
  | refused (error : SettingsError)
  /-- The analysis refuses the settings. -/
  | analysis (error : SettingsError)
  | coupling (error : MissingClass)
  | output (path : String) (error : OutputError)
  deriving DecidableEq, Repr

namespace Failure

/-- What went wrong, from the outermost to the innermost cause. -/
def chain : Failure → List String
  | callGraph path error => ["Cannot read call graph: " ++ path, error.message, error.cause]
  | settings path error => ["Cannot load config: " ++ path, error.message]
  | refused error => [error.message]
  | analysis error => [(Error.settings error).message, error.message]
  | coupling error => [error.message]
  | output path error => ["Cannot write output: " ++ path, error.message, error.cause]

def text (failure : Failure) : String := ": ".intercalate failure.chain

/-- A letter in lower case, as far as a phrase can tell. Besides the letters of ASCII only the sign
of the kelvin becomes one of them. A capital `I` with a dot would become an `i` and a dot of its
own behind it, but no phrase holds that dot or ends in an `i`, so the letter may stay. -/
def lower (c : Char) : Char := if c = '\u212A' then 'k' else c.toLower

/-- The exit code for a message, by the phrases that it holds in any case of letters. -/
def codeOf (message : String) : Nat :=
  let text := message.toList.map lower
  let holds (phrase : String) : Bool := Text.mentions phrase.toList text
  if holds "cannot read call graph" then 3
  else if holds "config" then 2
  else if holds "cannot be empty" || holds "unknown class" then 4
  else 1

def exitCode (failure : Failure) : Nat := codeOf failure.text

end Failure

end ModuleRecovery
