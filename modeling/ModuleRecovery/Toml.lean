import ModuleRecovery.Binary64
import ModuleRecovery.Text

/-!
TOML documents: their values, and how key-value lines and table headers build up one tree. A
table may be written only once; the tables that a header or a dotted key passes through come into
being on the way. Every part of the tree knows where it was written, so that what is wrong with
it can be told with its place.
-/

namespace ModuleRecovery.Toml

/-- A place in a document: the text from there to the end. -/
abbrev Place := List Char

/-- What is wrong with a document, and where. -/
structure Fault where
  place : Place
  reason : String
  deriving DecidableEq, Repr

namespace Fault

/-- The line of the fault in the whole text, counted from zero. What is wrong at the very end is on
the line of the last character, even if that is a line end. -/
def line (f : Fault) (text : List Char) : Nat :=
  (text.take (min (text.length - f.place.length) (text.length - 1))).count '\n'

/-- The fault with its line. The line itself, and the names and texts that the reason takes from the
document, are what a reader of such documents has to quote; all other words are this library's
own. -/
def message (f : Fault) (text : List Char) : String :=
  let n := f.line text
  let content := String.ofList ((Text.pieces '\n' text).getD n [])
  "line " ++ toString (n + 1) ++ ": " ++ content ++ "\n" ++ f.reason

end Fault

/-- A value with the place where it was written. A table that was only passed through has none. -/
structure Located (α : Type) where
  place : Option Place
  value : α

/-- One part of a key. -/
structure KeyPart where
  name : String
  place : Place

/-- A key: the tables it leads through, and its last part. -/
structure Key where
  parents : List KeyPart
  last : KeyPart

namespace Key

def names (key : Key) : List String := key.parents.map (·.name) ++ [key.last.name]

/-- Where the key starts. -/
def place (key : Key) : Place := (key.parents.headD key.last).place

end Key

/-- How a table came into being, on which hangs what may still be added to it. -/
inductive TableKind where
  /-- Written in braces; it is complete. -/
  | inline
  /-- Passed through by a header; a header of its own may follow. -/
  | implied
  /-- Passed through by a dotted key; only dotted keys add to it. -/
  | dotted
  /-- Opened by a header of its own. -/
  | opened
  deriving DecidableEq, Repr

inductive Item where
  | string (text : String)
  | integer (n : Int)
  | float (x : Binary64)
  | boolean (b : Bool)
  | dateTime
  | array (items : List (Located Item))
  | table (kind : TableKind) (fields : List (KeyPart × Located Item))
  /-- The tables under headers in double brackets, one or more. -/
  | tables (before : List (Located Item)) (last : Located (List (KeyPart × Located Item)))

abbrev Fields := List (KeyPart × Located Item)

/-- A key-value line, or a pair in braces. -/
structure Pair where
  key : Key
  item : Located Item

/-- What does not fit into a tree. -/
inductive Clash where
  /-- The name is taken, in the table with that path if it is known. -/
  | repeated (name : String) (table : Option (List String))
  /-- The path leads through something that is no table. -/
  | blocked (path : List String)
  deriving DecidableEq, Repr

/-- The names are those of the document; the words around them are this library's own. -/
def Clash.message : Clash → String
  | repeated name none => "duplicate key " ++ name
  | repeated name (some []) => "duplicate key " ++ name ++ " in the document"
  | repeated name (some path) => "duplicate key " ++ name ++ " in table " ++ ".".intercalate path
  | blocked path => "key " ++ ".".intercalate path ++ " is no table"

namespace Fields

def get? (fields : Fields) (name : String) : Option (Located Item) :=
  (List.find? (fun field => field.1.name = name) fields).map (·.2)

/-- Writes `item` in the place of the entry with that name. -/
def replace (fields : Fields) (name : String) (item : Located Item) : Fields :=
  fields.map fun field => if field.1.name = name then (field.1, item) else field

def remove (fields : Fields) (name : String) : Fields :=
  fields.filter fun field => field.1.name ≠ name

/-- Adds a pair to the table with the path `table`, or to one in braces. Its key must be new, and
the table that gets it must be that one itself (`here`) or one made of dotted keys; `walked` leads
there. -/
def put (table : Option (List String)) (last : KeyPart) (item : Located Item) (here : Bool)
    (walked : List String) : List KeyPart → Fields → Except Clash Fields
  | [], fields =>
      if ¬here then .error (.repeated last.name none)
      else if (fields.get? last.name).isSome then .error (.repeated last.name table)
      else .ok (fields ++ [(last, item)])
  | part :: parents, fields =>
      let path := walked ++ [part.name]
      match fields.get? part.name with
      | none =>
          (put table last item true path parents []).map fun inner =>
            fields ++ [(part, ⟨none, .table .dotted inner⟩)]
      | some ⟨place, .table .dotted inner⟩ =>
          (put table last item true path parents inner).map fun inner =>
            fields.replace part.name ⟨place, .table .dotted inner⟩
      | some ⟨place, .table .implied inner⟩ =>
          (put table last item false path parents inner).map fun inner =>
            fields.replace part.name ⟨place, .table .implied inner⟩
      | some ⟨place, .tables before current⟩ =>
          (put table last item false path parents current.value).map fun inner =>
            fields.replace part.name ⟨place, .tables before ⟨current.place, inner⟩⟩
      | some ⟨_, .table .opened _⟩ => .error (.repeated part.name none)
      | some ⟨_, .table .inline _⟩ =>
          .error (if table.isNone then .repeated part.name none else .blocked path)
      | some _ => .error (.blocked path)

/-- Adds pairs one after the other. -/
def putAll (table : Option (List String)) (fields : Fields) (pairs : List Pair) :
    Except Fault Fields :=
  pairs.foldlM (fun fields pair =>
    (put table pair.key.last pair.item true [] pair.key.parents fields).mapError fun clash =>
      ⟨pair.key.place, clash.message⟩) fields

/-- Changes the table that the parts of a header before its last lead to. The tables on the way are
made if they are missing; of tables in double brackets the last one is meant. -/
def within (place : Place) (change : Fields → Except Fault Fields) (walked : List String) :
    List KeyPart → Fields → Except Fault Fields
  | [], fields => change fields
  | part :: parents, fields =>
      let path := walked ++ [part.name]
      match fields.get? part.name with
      | none =>
          (within place change path parents []).map fun inner =>
            fields ++ [(part, ⟨none, .table .implied inner⟩)]
      | some ⟨written, .table kind inner⟩ =>
          if kind = .inline then .error ⟨place, (Clash.blocked path).message⟩
          else
            (within place change path parents inner).map fun inner =>
              fields.replace part.name ⟨written, .table kind inner⟩
      | some ⟨written, .tables before current⟩ =>
          (within place change path parents current.value).map fun inner =>
            fields.replace part.name ⟨written, .tables before ⟨current.place, inner⟩⟩
      | some _ => .error ⟨place, (Clash.blocked path).message⟩

end Fields

/-- A header. -/
structure Header where
  place : Place
  /-- In double brackets. -/
  repeated : Bool
  key : Key

/-- A header and the key-value lines below it. -/
structure Section where
  header : Header
  lines : List Pair

namespace Section

/-- Adds the table of a section to the table that its header leads to. A table that headers have
passed through before goes to the end with what it holds. -/
def enter (s : Section) (fields : Fields) : Except Fault Fields :=
  let last := s.header.key.last
  let clash : Clash := .repeated last.name (some (s.header.key.parents.map (·.name)))
  let fill (inner : Fields) := Fields.putAll (some s.header.key.names) inner s.lines
  match s.header.repeated, fields.get? last.name with
  | false, none =>
      (fill []).map fun table => fields ++ [(last, ⟨some s.header.place, .table .opened table⟩)]
  | false, some ⟨_, .table .implied inner⟩ =>
      (fill inner).map fun table =>
        fields.remove last.name ++ [(last, ⟨some s.header.place, .table .opened table⟩)]
  | true, none =>
      (fill []).map fun table =>
        fields ++ [(last, ⟨some s.header.place, .tables [] ⟨some s.header.place, table⟩⟩)]
  | true, some ⟨place, .tables before prior⟩ =>
      let before := before ++ [⟨prior.place, .table .opened prior.value⟩]
      (fill []).map fun table =>
        fields.replace last.name ⟨place, .tables before ⟨some s.header.place, table⟩⟩
  | _, some _ => .error ⟨s.header.place, clash.message⟩

/-- Adds the table of a section to the document. -/
def addTo (s : Section) (root : Fields) : Except Fault Fields :=
  Fields.within s.header.place s.enter [] s.header.key.parents root

end Section

/-- A document as it is written: key-value lines, then sections. -/
structure Document where
  lines : List Pair
  sections : List Section

/-- The tree of a document. -/
def Document.tree (d : Document) : Except Fault Fields := do
  let root ← Fields.putAll (some []) [] d.lines
  d.sections.foldlM (fun root (s : Section) => s.addTo root) root

end ModuleRecovery.Toml
