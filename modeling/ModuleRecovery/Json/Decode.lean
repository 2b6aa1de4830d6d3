import ModuleRecovery.Json
import ModuleRecovery.Table

/-!
Taking values out of JSON documents. A record may be given as an object, where fields that are
not its own are passed over, or as the list of its fields in order.
-/

namespace ModuleRecovery.Json

/-- A text as a value; one with half of a surrogate pair is none. -/
def asText? : Json → Option String
  | .string literal => text? literal
  | _ => none

def asCount? : Json → Option Nat
  | .number literal => count? literal
  | _ => none

def asBinary64? : Json → Option Binary64
  | .number literal => binary64? literal
  | _ => none

/-- A list of values of one kind. -/
def asList? {α : Type} (decode : Json → Option α) : Json → Option (List α)
  | .array items => items.mapM decode
  | _ => none

/-- The set of the listed names. -/
def asNameSet? (j : Json) : Option NameSet := (asList? asText? j).map .ofList

/-- The fields of an object under their names. -/
def entries? : Json → Option (List (String × Json))
  | .object fields => fields.mapM fun (name, value) => (text? name).map fun name => (name, value)
  | _ => none

/-- A table; of the values under one name the last one stays, but all have to be values. -/
def asTable? {β : Type} (decode : Json → Option β) (j : Json) : Option (Table β) := do
  let entries ← j.entries?
  let decoded ← entries.mapM fun (name, value) => (decode value).map fun value => (name, value)
  return .ofList decoded

/-- Whether a name stands at most once among the entries. -/
def isUnique (entries : List (String × Json)) (name : String) : Bool :=
  (entries.filter fun entry => entry.1 = name).length ≤ 1

/-- The fields of a record. An object may hold each of the names at most once; a list holds the
values of the names in order, the first `required` of them at least, and nothing more. -/
def record? (names : List String) (required : Nat) : Json → Option (List (String × Json))
  | .array items =>
      if required ≤ items.length ∧ items.length ≤ names.length then some (names.zip items)
      else none
  | j => do
      let entries ← j.entries?
      if names.all (isUnique entries) then some entries else none

/-- A field that has to be there. -/
def field? {α : Type} (fields : List (String × Json)) (name : String) (decode : Json → Option α) :
    Option α :=
  (fields.lookup name).bind decode

/-- A field that may be missing or null. -/
def optionalField? {α : Type} (fields : List (String × Json)) (name : String)
    (decode : Json → Option α) : Option (Option α) :=
  match fields.lookup name with
  | none | some .null => some none
  | some value => (decode value).map some

mutual

/-- Whether all of a document has a meaning: its texts are texts, its numbers are not too large,
and it opens at most `room` brackets one inside the other. -/
def isMeaningful (room : Nat) : Json → Bool
  | .string literal => (text? literal).isSome
  | .number literal => (binary64? literal).isSome
  | .array items => 0 < room && areMeaningful (room - 1) items
  | .object fields => 0 < room && haveMeaningful (room - 1) fields
  | _ => true

def areMeaningful (room : Nat) : List Json → Bool
  | [] => true
  | item :: rest => isMeaningful room item && areMeaningful room rest

def haveMeaningful (room : Nat) : List (List Char × Json) → Bool
  | [] => true
  | (name, value) :: rest =>
      (text? name).isSome && isMeaningful room value && haveMeaningful room rest

end

end ModuleRecovery.Json
