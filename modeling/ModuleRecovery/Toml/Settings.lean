import ModuleRecovery.Settings
import ModuleRecovery.Toml.Reader

/-!
Settings as a TOML document: the section `analysis` and the section `output`. What is not set
stays as it is by default, and what is unknown is passed over.
-/

namespace ModuleRecovery.Settings

open Toml (Item Fields Located KeyPart Place Fault)

/-- A character of a quoted text: those that cannot be seen are escaped. -/
def quoteChar (c : Char) : List Char :=
  if c = '"' ∨ c = '\\' then ['\\', c]
  else if c = '\n' then ['\\', 'n']
  else if c = '\t' then ['\\', 't']
  else if c = '\r' then ['\\', 'r']
  else if c.toNat < 32 ∨ c.toNat = 127 then
    ['\\', 'u', '\x7b'] ++ Nat.toDigits 16 c.toNat ++ ['\x7d']
  else [c]

/-- What a value is, as it is told where another kind of value is needed. -/
def describe : Item → String
  | .string text => "the text \"" ++ String.ofList (text.toList.flatMap quoteChar) ++ "\""
  | .integer n => "the integer " ++ toString n
  | .float _ => "a number"
  | .boolean _ => "a truth value"
  | .dateTime => "a date"
  | .array _ => "an array"
  | .table .. => "a table"
  | .tables .. => "an array"

/-- The value that an item stands for, or the fault that it stands for none of the kind. -/
def require {α : Type} (place : Place) (what : String) (item : Item) :
    Option α → Except Fault α
  | some a => .ok a
  | none => .error ⟨place, describe item ++ " is not " ++ what⟩

/-- A number, which may be written as an integer. -/
def asBinary64? : Item → Option Binary64
  | .float x => some x
  | .integer n => some (.ofInt n)
  | _ => none

def asCount? : Item → Option Nat
  | .integer n => if 0 ≤ n then some n.toNat else none
  | _ => none

def asBool? : Item → Option Bool
  | .boolean b => some b
  | _ => none

/-- The settings with one of the section `analysis` changed. -/
def setAnalysis (s : Settings) (name : String) (place : Place) (item : Item) :
    Except Fault Settings :=
  match name with
  | "min_coupling_average" =>
      (require place "a number" item (asBinary64? item)).map fun x =>
        { s with minCouplingAverage := x }
  | "total_classes" =>
      (require place "a count" item (asCount? item)).map fun n => { s with totalClasses := some n }
  | "step_budget" =>
      (require place "a count" item (asCount? item)).map fun n => { s with stepBudget := some n }
  | _ => .ok s

/-- The settings with one of the section `output` changed. -/
def setOutput (s : Settings) (name : String) (place : Place) (item : Item) :
    Except Fault Settings :=
  match name with
  | "include_isolated" =>
      (require place "a truth value" item (asBool? item)).map fun b =>
        { s with includeIsolated := b }
  | _ => .ok s

/-- The settings with those of a section changed, one after the other. A section may also be given
as the list of its values in the order of their names; a date has no values. -/
def setSection (names : List String)
    (set : Settings → String → Place → Item → Except Fault Settings) (s : Settings)
    (place : Place) : Item → Except Fault Settings
  | .table _ fields =>
      fields.foldlM
        (fun s (part, item) => set s part.name (item.place.getD part.place) item.value) s
  | .array items => setList items s
  | .tables before last => setList (before ++ [⟨last.place, .table .opened last.value⟩]) s
  | .dateTime => .ok s
  | item => .error ⟨place, describe item ++ " is not a section"⟩
where
  setList (items : List (Located Item)) (s : Settings) : Except Fault Settings :=
    (names.zip items).foldlM
      (fun s (name, item) => set s name (item.place.getD place) item.value) s

/-- The settings of a document, not validated. -/
def ofFields (root : Fields) : Except Fault Settings :=
  root.foldlM (fun s (part, item) =>
    let place := item.place.getD part.place
    match part.name with
    | "analysis" =>
        setSection ["min_coupling_average", "total_classes", "step_budget"] setAnalysis s place
          item.value
    | "output" => setSection ["include_isolated"] setOutput s place item.value
    | _ => .ok s) standard

/-- The settings that a text holds, not validated. -/
def read (text : List Char) : Except Fault Settings := do ofFields (← Toml.read text)

/-- Reads settings from a text and validates them. -/
def ofText (text : String) : Except SettingsError Settings :=
  match read text.toList with
  | .error fault => .error (.unreadable (fault.message text.toList))
  | .ok settings => settings.checked

/-- In a settings document: the fewest digits, never a power of ten, and always a point. -/
def numberStyle : NumberStyle where
  plain := none
  pointZero := true
  plusSign := false
  tie := .up
  nan := "nan"
  infinity := "inf"

/-- The largest integer that a document holds. -/
def largestInteger : Nat := 0x7fffffffffffffff

def fits (n : Option Nat) : Bool := n.all fun n => n ≤ largestInteger

/-- The line of an integer that is set. -/
def countLine (name : String) : Option Nat → String
  | none => ""
  | some n => name ++ " = " ++ toString n ++ "\n"

/-- Writes settings as a text. Counts that are too large for the format cannot be written; the words
for it are this library's own. -/
def toText (s : Settings) : Except SettingsError String :=
  if fits s.totalClasses ∧ fits s.stepBudget then
    .ok ("[analysis]\nmin_coupling_average = " ++ numberStyle.write s.minCouplingAverage ++ "\n" ++
      countLine "total_classes" s.totalClasses ++ countLine "step_budget" s.stepBudget ++
      "\n[output]\ninclude_isolated = " ++ (if s.includeIsolated then "true" else "false") ++ "\n")
  else .error (.unreadable "a count is too large")

end ModuleRecovery.Settings
