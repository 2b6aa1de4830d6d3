import ModuleRecovery.Json

/-!
Writing JSON documents: all on one line without blanks, or with one item to a line, indented by
two blanks a level. Both differ only in the blanks around items and after colons.
-/

namespace ModuleRecovery.Json

/-- The blanks of a written document. -/
structure Spacing where
  /-- What stands before an item, or before a closing bracket, at a depth. -/
  before : Nat → List Char
  afterColon : List Char

namespace Spacing

/-- No blanks at all. -/
def compact : Spacing where
  before _ := []
  afterColon := []

/-- An item to a line. -/
def indented : Spacing where
  before depth := '\n' :: List.replicate (2 * depth) ' '
  afterColon := [' ']

end Spacing

def quote (literal : List Char) : List Char := '"' :: literal ++ ['"']

mutual

/-- A document that stands at a depth. Empty brackets hold no blanks. -/
def lay (s : Spacing) (depth : Nat) : Json → List Char
  | .null => ['n', 'u', 'l', 'l']
  | .bool true => ['t', 'r', 'u', 'e']
  | .bool false => ['f', 'a', 'l', 's', 'e']
  | .number literal => literal
  | .string literal => quote literal
  | .array [] => ['[', ']']
  | .array (item :: rest) =>
      '[' :: s.before (depth + 1) ++ lay s (depth + 1) item ++ layItems s depth rest
  | .object [] => ['{', '}']
  | .object ((name, value) :: rest) =>
      '{' :: s.before (depth + 1) ++ quote name ++ ':' :: s.afterColon ++
        lay s (depth + 1) value ++ layFields s depth rest

/-- The further items of an array and its end. -/
def layItems (s : Spacing) (depth : Nat) : List Json → List Char
  | [] => s.before depth ++ [']']
  | item :: rest =>
      ',' :: s.before (depth + 1) ++ lay s (depth + 1) item ++ layItems s depth rest

/-- The further fields of an object and its end. -/
def layFields (s : Spacing) (depth : Nat) : List (List Char × Json) → List Char
  | [] => s.before depth ++ ['}']
  | (name, value) :: rest =>
      ',' :: s.before (depth + 1) ++ quote name ++ ':' :: s.afterColon ++
        lay s (depth + 1) value ++ layFields s depth rest

end

/-- The text of a document. -/
def write (s : Spacing) (j : Json) : String := String.ofList (lay s 0 j)

mutual

/-- The document with the fields of every object in the order of their names. -/
def sortFields : Json → Json
  | .array items => .array (sortItems items)
  | .object fields => .object ((sortValues fields).mergeSort fun a b => a.1 ≤ b.1)
  | leaf => leaf

def sortItems : List Json → List Json
  | [] => []
  | item :: rest => sortFields item :: sortItems rest

def sortValues : List (List Char × Json) → List (List Char × Json)
  | [] => []
  | (name, value) :: rest => (name, sortFields value) :: sortValues rest

end

end ModuleRecovery.Json
