import ModuleRecovery.Json

/-!
Reading JSON documents. The reader takes one character after the other and keeps the brackets
that are still open on a stack, so that no text is too deeply nested for it. Blanks, tabs and
line ends may stand between tokens and nothing may follow the document.
-/

namespace ModuleRecovery.Json

inductive Token where
  | leaf (value : Json)
  | openArray
  | closeArray
  | openObject
  | closeObject
  | colon
  | comma

/-- An open bracket with what was read inside it, the last first. -/
inductive Frame where
  | array (before : List Json)
  | object (before : List (List Char × Json)) (name : List Char)

/-- What may come next. -/
inductive Phase where
  /-- A value. -/
  | value (frames : List Frame)
  /-- The first item of an array, or its end. -/
  | firstItem (frames : List Frame)
  /-- The first field name of an object, or its end. -/
  | firstName (frames : List Frame)
  /-- A further field name. -/
  | name (before : List (List Char × Json)) (frames : List Frame)
  /-- The colon behind a field name. -/
  | colon (before : List (List Char × Json)) (name : List Char) (frames : List Frame)
  /-- A comma or the end of an array. -/
  | afterItem (before : List Json) (frames : List Frame)
  /-- A comma or the end of an object. -/
  | afterField (before : List (List Char × Json)) (frames : List Frame)
  /-- Nothing any more. -/
  | done (document : Json)

namespace Phase

/-- A value is complete and goes into the bracket around it. -/
def complete (item : Json) : List Frame → Phase
  | [] => .done item
  | .array before :: frames => .afterItem (item :: before) frames
  | .object before key :: frames => .afterField ((key, item) :: before) frames

/-- The first token of a value. -/
def start (frames : List Frame) : Token → Option Phase
  | .leaf item => some (complete item frames)
  | .openArray => some (.firstItem frames)
  | .openObject => some (.firstName frames)
  | _ => none

/-- Takes one token, if it may stand here. -/
def feed : Phase → Token → Option Phase
  | .value frames, token => start frames token
  | .firstItem frames, .closeArray => some (complete (.array []) frames)
  | .firstItem frames, token => start (.array [] :: frames) token
  | .firstName frames, .closeObject => some (complete (.object []) frames)
  | .firstName frames, .leaf (.string key) => some (.colon [] key frames)
  | .name before frames, .leaf (.string key) => some (.colon before key frames)
  | .colon before key frames, .colon => some (.value (.object before key :: frames))
  | .afterItem before frames, .comma => some (.value (.array before :: frames))
  | .afterItem before frames, .closeArray => some (complete (.array before.reverse) frames)
  | .afterField before frames, .comma => some (.name before frames)
  | .afterField before frames, .closeObject => some (complete (.object before.reverse) frames)
  | _, _ => none

end Phase

/-- The token that is being read, its characters so far last first. -/
inductive Pending where
  | nothing
  | word (letters : List Char)
  | number (literal : List Char)
  | text (literal : List Char)
  /-- Behind a backslash. -/
  | escape (literal : List Char)
  /-- Inside an escape by number, with so many digits to come. -/
  | hex (digits : Nat) (literal : List Char)

structure Reader where
  pending : Pending
  phase : Phase

namespace Reader

def isBlank (c : Char) : Bool := c == ' ' || c == '\t' || c == '\n' || c == '\r'

/-- A character of a number. Which runs of them are numbers is decided at their end. -/
def isNumeric (c : Char) : Bool :=
  c.isDigit || c == '-' || c == '+' || c == '.' || c == 'e' || c == 'E'

def wordValue? (word : List Char) : Option Json :=
  if word = ['n', 'u', 'l', 'l'] then some .null
  else if word = ['t', 'r', 'u', 'e'] then some (.bool true)
  else if word = ['f', 'a', 'l', 's', 'e'] then some (.bool false)
  else none

/-- The phase after the pending word or number, at a character that does not belong to it. -/
def settle (r : Reader) : Option Phase :=
  match r.pending with
  | .nothing => some r.phase
  | .word letters => (wordValue? letters.reverse).bind fun value => r.phase.feed (.leaf value)
  | .number literal =>
      if isNumber literal.reverse then r.phase.feed (.leaf (.number literal.reverse)) else none
  | _ => none

/-- A character between tokens. -/
def open? (phase : Phase) (c : Char) : Option Reader :=
  if isBlank c then some ⟨.nothing, phase⟩
  else if c = '"' then some ⟨.text [], phase⟩
  else if c = '-' ∨ c.isDigit then some ⟨.number [c], phase⟩
  else if c.isLower then some ⟨.word [c], phase⟩
  else
    let token : Option Token :=
      if c = '[' then some .openArray
      else if c = ']' then some .closeArray
      else if c = '{' then some .openObject
      else if c = '}' then some .closeObject
      else if c = ':' then some .colon
      else if c = ',' then some .comma
      else none
    token.bind fun token => (phase.feed token).map fun phase => ⟨.nothing, phase⟩

/-- Takes one character, if it may stand here. -/
def step (r : Reader) (c : Char) : Option Reader :=
  match r.pending with
  | .text literal =>
      if c = '"' then
        (r.phase.feed (.leaf (.string literal.reverse))).map fun phase => ⟨.nothing, phase⟩
      else if c = '\\' then some ⟨.escape (c :: literal), r.phase⟩
      else if c.toNat < 32 then none
      else some ⟨.text (c :: literal), r.phase⟩
  | .escape literal =>
      if c = 'u' then some ⟨.hex 4 (c :: literal), r.phase⟩
      else if (unescapeLetter? c).isSome then some ⟨.text (c :: literal), r.phase⟩
      else none
  | .hex digits literal =>
      if isHexDigit c then
        if digits ≤ 1 then some ⟨.text (c :: literal), r.phase⟩
        else some ⟨.hex (digits - 1) (c :: literal), r.phase⟩
      else none
  | .number literal =>
      if isNumeric c then some ⟨.number (c :: literal), r.phase⟩
      else r.settle.bind fun phase => open? phase c
  | .word letters =>
      if c.isLower then some ⟨.word (c :: letters), r.phase⟩
      else r.settle.bind fun phase => open? phase c
  | .nothing => open? r.phase c

/-- The document, if the text is complete. -/
def finish (r : Reader) : Option Json :=
  match r.settle with
  | some (.done document) => some document
  | _ => none

end Reader

/-- Reads characters one by one from where the reader stands. -/
def readFrom (r : Reader) : List Char → Option Json
  | [] => r.finish
  | c :: rest =>
      match r.step c with
      | some next => readFrom next rest
      | none => none

/-- The document that a text is, if it is one. -/
def read? (text : String) : Option Json := readFrom ⟨.nothing, .value []⟩ text.toList

end ModuleRecovery.Json
