import ModuleRecovery.CommandLine.Request
import ModuleRecovery.Numeral

/-!
The arguments of a command line. Switches that hold for every command stand before the name of
the command or after it; the others stand after it, before or after the input file. Arguments are
read from left to right, and the first one that is wrong, or that asks for help or for the
version, ends the reading.
-/

namespace ModuleRecovery

/-- The names of the commands. -/
inductive CommandName where
  | coupling
  | graph
  | cluster
  | modules
  | analyze
  deriving DecidableEq, Repr

def CommandName.ofText? : String → Option CommandName
  | "coupling" => some .coupling
  | "graph" => some .graph
  | "cluster" => some .cluster
  | "modules" => some .modules
  | "analyze" => some .analyze
  | _ => none

/-- A switch that stands for itself. -/
inductive Flag where
  | verbose
  | quiet
  | help
  | version
  | noIsolated
  deriving DecidableEq, Repr

/-- A switch with a value. -/
inductive Parameter where
  | config
  | source
  | target
  | format
  | output
  | stepBudget
  | minCoupling
  | totalClasses
  | dot
  deriving DecidableEq, Repr

inductive Switch where
  | flag (flag : Flag)
  | parameter (parameter : Parameter)
  deriving DecidableEq, Repr

namespace Switch

/-- The switch with a name, before any command or after the given one. -/
def named? (place : Option CommandName) (name : String) : Option Switch :=
  let switch : Option Switch := match name with
    | "verbose" => some (.flag .verbose)
    | "quiet" => some (.flag .quiet)
    | "help" => some (.flag .help)
    | "version" => some (.flag .version)
    | "no-isolated" => some (.flag .noIsolated)
    | "config" => some (.parameter .config)
    | "from" => some (.parameter .source)
    | "to" => some (.parameter .target)
    | "format" => some (.parameter .format)
    | "output" => some (.parameter .output)
    | "step-budget" => some (.parameter .stepBudget)
    | "min-coupling" => some (.parameter .minCoupling)
    | "total-classes" => some (.parameter .totalClasses)
    | "dot" => some (.parameter .dot)
    | _ => none
  switch.filter (known place)
where
  /-- Whether a switch may stand there. -/
  known (place : Option CommandName) : Switch → Bool
    | .flag .verbose | .flag .quiet | .flag .help => true
    | .flag .version => place.isNone
    | .flag .noIsolated | .parameter .output => place = some .graph
    | .parameter .config | .parameter .format => place.isSome
    | .parameter .source | .parameter .target => place = some .coupling
    | .parameter .stepBudget => place = some .cluster || place = some .modules
    | .parameter .minCoupling => place = some .modules || place = some .analyze
    | .parameter .totalClasses => place = some .modules
    | .parameter .dot => place = some .analyze

/-- The name that a letter is short for. -/
def longName? : Char → Option String
  | 'v' => some "verbose"
  | 'q' => some "quiet"
  | 'h' => some "help"
  | 'V' => some "version"
  | 'o' => some "output"
  | _ => none

/-- The switch with a letter. -/
def lettered? (place : Option CommandName) (letter : Char) : Option Switch :=
  (longName? letter).bind (named? place)

end Switch

/-- What the switches read so far have chosen. -/
structure Choices where
  verbosity : Nat
  quiet : Bool
  noIsolated : Bool
  config : Option String
  source : Option String
  target : Option String
  format : Option GraphFormat
  output : Option String
  stepBudget : Option Nat
  minCoupling : Option Binary64
  totalClasses : Option Nat
  dot : Option String
  deriving DecidableEq, Repr

namespace Choices

/-- Nothing is chosen. -/
def start : Choices where
  verbosity := 0
  quiet := false
  noIsolated := false
  config := none
  source := none
  target := none
  format := none
  output := none
  stepBudget := none
  minCoupling := none
  totalClasses := none
  dot := none

/-- A flag. Only the one for more messages may be repeated. -/
def raise (c : Choices) : Flag → Except NoRequest Choices
  | .verbose => .ok { c with verbosity := c.verbosity + 1 }
  | .quiet => if c.quiet then .error .misuse else .ok { c with quiet := true }
  | .noIsolated => if c.noIsolated then .error .misuse else .ok { c with noIsolated := true }
  | .help => .error .help
  | .version => .error .version

/-- The value for a place that is still free. -/
def fill {α : Type} (old : Option α) (value : Option α) : Except NoRequest (Option α) :=
  match old, value with
  | none, some a => .ok (some a)
  | _, _ => .error .misuse

/-- A path is any text but the empty one. -/
def path? (text : String) : Option String := if text = "" then none else some text

/-- A number of merges or classes: digits, after a plus sign if there is one, for a number that
fits a machine word. -/
def count? (text : String) : Option Nat :=
  let digits := match text.toList with
    | '+' :: digits => digits
    | digits => digits
  if digits ≠ [] ∧ digits.all Char.isDigit then
    let n := Nat.ofDigitChars 10 digits 0
    if n ≤ 0xffffffffffffffff then some n else none
  else none

/-- Only the coupling graph can be drawn. -/
def format? (command : Option CommandName) (text : String) : Option GraphFormat :=
  (GraphFormat.ofName? text).filter fun format => format ≠ .dot || command = some .graph

/-- The value of a parameter. No parameter may be repeated. -/
def set (c : Choices) (command : Option CommandName) (parameter : Parameter) (value : String) :
    Except NoRequest Choices :=
  match parameter with
  | .config => (fill c.config (path? value)).map fun x => { c with config := x }
  | .source => (fill c.source (some value)).map fun x => { c with source := x }
  | .target => (fill c.target (some value)).map fun x => { c with target := x }
  | .format => (fill c.format (format? command value)).map fun x => { c with format := x }
  | .output => (fill c.output (path? value)).map fun x => { c with output := x }
  | .stepBudget => (fill c.stepBudget (count? value)).map fun x => { c with stepBudget := x }
  | .minCoupling =>
      (fill c.minCoupling (Binary64.read? value)).map fun x => { c with minCoupling := x }
  | .totalClasses => (fill c.totalClasses (count? value)).map fun x => { c with totalClasses := x }
  | .dot => (fill c.dot (path? value)).map fun x => { c with dot := x }

/-- The switches after the dash of one argument: flags, and at the end it may be a parameter, with
its value in the same argument or, if nothing is left there, still to come. -/
def readLetters (command : Option CommandName) (c : Choices) :
    List Char → Except NoRequest (Choices × Option Parameter)
  | [] => .ok (c, none)
  | letter :: rest =>
      match Switch.lettered? command letter with
      | none => .error .misuse
      | some (.flag flag) =>
          match c.raise flag with
          | .error stop => .error stop
          | .ok c => c.readLetters command rest
      | some (.parameter parameter) =>
          match rest with
          | [] => .ok (c, some parameter)
          | '=' :: value => (c.set command parameter (String.ofList value)).map (·, none)
          | value => (c.set command parameter (String.ofList value)).map (·, none)

/-- The switch after two dashes, with a value after an equals sign if there is one. -/
def readName (command : Option CommandName) (c : Choices) (text : List Char) :
    Except NoRequest (Choices × Option Parameter) :=
  let name := text.takeWhile (· ≠ '=')
  match Switch.named? command (String.ofList name), text.drop name.length with
  | some (.flag flag), [] => (c.raise flag).map (·, none)
  | some (.parameter parameter), [] => .ok (c, some parameter)
  | some (.parameter parameter), _ :: value =>
      (c.set command parameter (String.ofList value)).map (·, none)
  | _, _ => .error .misuse

/-- Whether an argument starts with a switch, or ends them, and so cannot be the value of one. A
single dash can. -/
def startsSwitch (argument : String) : Bool :=
  match argument.toList with
  | '-' :: _ :: _ => true
  | _ => false

/-- Reads switches until an argument is none. Two dashes alone are none. -/
def readSwitches (command : Option CommandName) (c : Choices) :
    List String → Except NoRequest (Choices × List String)
  | [] => .ok (c, [])
  | argument :: rest =>
      let switches := match argument.toList with
        | ['-', '-'] => none
        | '-' :: '-' :: name => some (c.readName command name)
        | '-' :: letter :: letters => some (c.readLetters command (letter :: letters))
        | _ => none
      match switches with
      | none => .ok (c, argument :: rest)
      | some (.error stop) => .error stop
      | some (.ok (c, none)) => c.readSwitches command rest
      | some (.ok (c, some parameter)) =>
          match rest with
          | [] => .error .misuse
          | value :: rest =>
              if startsSwitch value then .error .misuse
              else
                match c.set command parameter value with
                | .error stop => .error stop
                | .ok c => c.readSwitches command rest

/-- The command that is chosen. Without a format results are printed as text. -/
def command? (c : Choices) : CommandName → Option Command
  | .coupling => do return .coupling (← c.source) (← c.target) plain
  | .graph => some (.graph (c.format.getD (.plain .text)) c.noIsolated c.output)
  | .cluster => some (.cluster c.stepBudget plain)
  | .modules => some (.modules c.minCoupling c.totalClasses c.stepBudget plain)
  | .analyze => some (.analyze c.minCoupling c.dot plain)
where
  plain : Format :=
    match c.format with
    | some (.plain format) => format
    | _ => .text

end Choices

namespace Request

/-- The switches after the name of a command and the one input file among them. After two dashes
alone everything is a file. -/
def readOperand (name : CommandName) (arguments : List String) :
    Except NoRequest (Choices × String) := do
  let (choices, rest) ← Choices.start.readSwitches (some name) arguments
  match rest with
  | [] => .error .misuse
  | ["--", input] => return (choices, input)
  | "--" :: _ => .error .misuse
  | input :: rest =>
      let (choices, rest) ← choices.readSwitches (some name) rest
      match rest with
      | [] | ["--"] => return (choices, input)
      | _ => .error .misuse

/-- The request of a command line. The settings file of the environment is used where the
arguments name none. -/
def ofArguments (arguments : List String) (environment : Option String) :
    Except NoRequest Request := do
  let (before, rest) ← Choices.start.readSwitches none arguments
  match rest with
  | [] => .error .misuse
  | ["help"] => .error .help
  | ["help", name] =>
      if name = "help" ∨ (CommandName.ofText? name).isSome then .error .help else .error .misuse
  | word :: rest =>
      let some name := CommandName.ofText? word | .error .misuse
      let (choices, input) ← readOperand name rest
      let some command := choices.command? name | .error .misuse
      let settings := choices.config <|> environment
      if input = "" ∨ settings = some "" then .error .misuse
      else return {
        input := input
        settings := settings
        quiet := before.quiet || choices.quiet
        verbosity := if choices.verbosity = 0 then before.verbosity else choices.verbosity
        command := command }

end Request

end ModuleRecovery
