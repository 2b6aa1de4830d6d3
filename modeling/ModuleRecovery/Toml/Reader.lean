import ModuleRecovery.Toml.Scalar

/-!
Reading TOML documents: keys, nested values, key-value lines and headers. Faults are found from
left to right, what does not fit into the tree as soon as its line has been read.
-/

namespace ModuleRecovery.Toml

/-- Skips blanks, line ends and comments; `inComment` tells whether one has begun. -/
def skipFiller (inComment : Bool) : List Char → List Char
  | [] => []
  | '\n' :: rest => skipFiller false rest
  | '\r' :: '\n' :: rest => skipFiller false rest
  | c :: rest =>
      if inComment then if isPlain c then skipFiller true rest else c :: rest
      else if isBlank c then skipFiller false rest
      else if c = '#' then skipFiller true rest
      else c :: rest

/-- The end of a line that has held something: blanks, a comment, and the line end or nothing. -/
def skipLineEnd (text : List Char) : Except Fault (List Char) :=
  let rest := match skipBlanks text with
    | '#' :: rest => rest.dropWhile isPlain
    | rest => rest
  if rest = [] then .ok [] else expect rest "a line end" (skipNewline? rest)

/-! ## Keys -/

def isBareKey (c : Char) : Bool := c.isAlphanum || c == '_' || c == '-'

/-- One part of a key: bare, or a text in single quotes or double quotes. None is there if it does
not even start. -/
def scanKeyPart (text : List Char) : Except Fault (Option (KeyPart × List Char)) :=
  let part (name rest : List Char) : Option (KeyPart × List Char) :=
    some (⟨String.ofList name, text⟩, rest)
  match text with
  | '"' :: rest => (scanBasic (rest.length + 1) rest).map fun (name, rest) => part name rest
  | '\'' :: rest => (scanLiteral rest).map fun (name, rest) => part name rest
  | _ =>
      let name := text.takeWhile isBareKey
      .ok (if name = [] then none else part name (text.dropWhile isBareKey))

/-- Parts of a key with dots between them, blanks around each. A dot that no part follows is left.
The bound is on their number. -/
def scanParts : Nat → List Char → Except Fault (Option (Key × List Char))
  | 0, _ => .ok none
  | bound + 1, text => do
      match ← scanKeyPart (skipBlanks text) with
      | none => return none
      | some (part, rest) =>
          match skipBlanks rest with
          | '.' :: after =>
              match ← scanParts bound after with
              | none => return some (⟨[], part⟩, '.' :: after)
              | some (key, rest) => return some (⟨part :: key.parents, key.last⟩, rest)
          | rest => return some (⟨[], part⟩, rest)

/-- How many brackets may stand one inside the other, and how many parts a key may have. -/
def nestingLimit : Nat := 79

/-- A key. One with too many parts is taken for none. -/
def scanKey (text : List Char) : Except Fault (Option (Key × List Char)) := do
  match ← scanParts (text.length + 1) text with
  | none => return none
  | some (key, rest) => return if key.names.length ≤ nestingLimit then some (key, rest) else none

/-- A key, an equals sign and a value. None is there if there is no key. -/
def scanPair (scanItem : Scan Item) (text : List Char) :
    Except Fault (Option (Pair × List Char)) := do
  match ← scanKey text with
  | none => return none
  | some (key, rest) =>
      let rest ← expect rest "an equals sign" (skipWord? ['='] rest)
      let place := skipBlanks rest
      let (item, rest) ← scanItem place
      return some (⟨key, ⟨some place, item⟩⟩, rest)

/-! ## Values -/

/-- The items of an array up to its end, with filler around them and a comma behind the last one
if it is wanted. The bound is on their number. -/
def scanItems (scanItem : Scan Item) : Nat → Scan (List (Located Item))
  | 0, text => .error ⟨text, "expected a bracket"⟩
  | bound + 1, text =>
      match skipFiller false text with
      | ']' :: rest => .ok ([], rest)
      | place => do
          let (item, rest) ← scanItem place
          let item : Located Item := ⟨some place, item⟩
          match skipFiller false rest with
          | ']' :: rest => return ([item], rest)
          | ',' :: rest => do
              let (items, rest) ← scanItems scanItem bound rest
              return (item :: items, rest)
          | rest => .error ⟨rest, "expected a bracket"⟩

/-- The pairs of a table in braces, as far as they go. A comma that no key follows is left. The
bound is on their number. -/
def scanPairs (scanItem : Scan Item) : Nat → Scan (List Pair)
  | 0, text => .ok ([], text)
  | bound + 1, text => do
      match ← scanPair scanItem text with
      | none => return ([], text)
      | some (pair, rest) =>
          match skipBlanks rest with
          | ',' :: after =>
              match ← scanPairs scanItem bound after with
              | ([], _) => return ([pair], ',' :: after)
              | (pairs, rest) => return (pair :: pairs, rest)
          | rest => return ([pair], rest)

/-- A table in braces, behind the first of them. What does not fit into it is told at its start. -/
def scanBraces (scanItem : Scan Item) (text : List Char) : Except Fault (Item × List Char) := do
  let (pairs, rest) ← scanPairs scanItem (text.length + 1) text
  let fields ← (Fields.putAll none [] pairs).mapError fun fault => { fault with place := text }
  match skipBlanks rest with
  | '}' :: rest => return (.table .inline fields, rest)
  | rest => .error ⟨rest, "expected a brace"⟩

/-- A value with at most `room` brackets one inside the other. -/
def scanItem : Nat → Scan Item
  | _, [] => .error ⟨[], "expected a value"⟩
  | 0, c :: rest =>
      if c = '[' ∨ c = '{' then .error ⟨c :: rest, "too many brackets"⟩ else scanScalar (c :: rest)
  | room + 1, c :: rest =>
      if c = '[' then
        (scanItems (scanItem room) (rest.length + 1) rest).map fun (items, rest) =>
          (.array items, rest)
      else if c = '{' then scanBraces (scanItem room) rest
      else scanScalar (c :: rest)

/-! ## Documents -/

/-- One statement of a document: a key-value line or a header. -/
inductive Statement where
  | pair (pair : Pair)
  | header (header : Header)

/-- A key where there has to be one. -/
def scanNeededKey (text : List Char) : Except Fault (Key × List Char) := do
  expect text "a key" (← scanKey text)

/-- A header, behind its opening brackets. -/
def scanHeader (place : Place) (repeated : Bool) (text : List Char) :
    Except Fault (Statement × List Char) := do
  let (key, rest) ← scanNeededKey text
  let rest ← expect rest "a bracket" (skipWord? (if repeated then [']', ']'] else [']']) rest)
  return (.header ⟨place, repeated, key⟩, rest)

def scanStatement (text : List Char) : Except Fault (Statement × List Char) :=
  match text with
  | '[' :: '[' :: rest => scanHeader text true rest
  | '[' :: rest => scanHeader text false rest
  | _ => do
      let (pair, rest) ← expect text "a key" (← scanPair (scanItem nestingLimit) text)
      return (.pair pair, rest)

/-- A statement with the end of its line. -/
def scanLine (text : List Char) : Except Fault (Statement × List Char) := do
  let (statement, rest) ← scanStatement text
  return (statement, ← skipLineEnd rest)

/-- Statements up to the end of the text or the first fault, each on a line of its own. The bound is
on their number. -/
def statements : Nat → List Char → List Statement × Option Fault
  | 0, text => ([], some ⟨text, "too many lines"⟩)
  | bound + 1, text =>
      match skipFiller false text with
      | [] => ([], none)
      | text =>
          match scanLine text with
          | .error fault => ([], some fault)
          | .ok (statement, rest) =>
              let (more, fault) := statements bound rest
              (statement :: more, fault)

/-- Puts each key-value line into the section of the header above it. -/
def Document.ofStatements (statements : List Statement) : Document :=
  statements.foldr (fun statement d =>
    match statement with
    | .pair pair => ⟨pair :: d.lines, d.sections⟩
    | .header header => ⟨[], ⟨header, d.lines⟩ :: d.sections⟩) ⟨[], []⟩

/-- The tree of the document that a text is, or the first fault. A byte order mark may stand in
front. -/
def read (text : List Char) : Except Fault Fields := do
  let body := match text with
    | '\uFEFF' :: rest => rest
    | body => body
  let (statements, fault) := statements (body.length + 1) body
  let root ← (Document.ofStatements statements).tree
  match fault with
  | none => return root
  | some fault => .error fault

end ModuleRecovery.Toml
