import ModuleRecovery.Json
import ModuleRecovery.Toml

/-!
The values of a TOML document that hold no others: texts in four kinds of quotes, numbers, dates
and times. A scanner takes a value off the front of the characters and gives the rest. What stands
on one line is there or not; only in a text does it matter how far it is right.
-/

namespace ModuleRecovery.Toml

/-- Takes something off the front, or tells where it goes wrong. -/
abbrev Scan (α : Type) := List Char → Except Fault (α × List Char)

/-- Takes something off the front, if it stands there. -/
abbrev Probe (α : Type) := List Char → Option (α × List Char)

/-- What is there, or a fault at the place. -/
def expect {α : Type} (place : Place) (what : String) : Option α → Except Fault α
  | some a => .ok a
  | none => .error ⟨place, "expected " ++ what⟩

def isBlank (c : Char) : Bool := c == ' ' || c == '\t'

/-- A character that may stand in a comment or a text: no control character but the tab. -/
def isPlain (c : Char) : Bool := c == '\t' || (32 ≤ c.toNat && c.toNat != 127)

def skipBlanks (text : List Char) : List Char := text.dropWhile isBlank

/-- The rest if the word stands in front. -/
def skipWord? : List Char → List Char → Option (List Char)
  | [], text => some text
  | c :: word, d :: text => if c = d then skipWord? word text else none
  | _ :: _, [] => none

/-! ## Texts -/

/-- The character of an escape by number, unless the number is none of a character. -/
def numbered? (digits : List Char) : Option Char :=
  let n := Json.hexNumber digits
  if digits.all Json.isHexDigit ∧ n.isValidChar then some (Char.ofNat n) else none

def escapeLetter? (c : Char) : Option Char :=
  if c = 'b' then some '\x08'
  else if c = 't' then some '\t'
  else if c = 'n' then some '\n'
  else if c = 'f' then some '\x0c'
  else if c = 'r' then some '\r'
  else if c = '"' ∨ c = '\\' then some c
  else none

/-- An escape, behind its backslash. A wrong letter is found once it has been passed. -/
def scanEscape : Scan Char
  | 'u' :: rest =>
      match rest with
      | a :: b :: c :: d :: more =>
          (expect rest "four hexadecimal digits" (numbered? [a, b, c, d])).map (·, more)
      | _ => .error ⟨rest, "expected four hexadecimal digits"⟩
  | 'U' :: rest =>
      match rest with
      | a :: b :: c :: d :: e :: f :: g :: h :: more =>
          (expect rest "eight hexadecimal digits" (numbered? [a, b, c, d, e, f, g, h])).map
            (·, more)
      | _ => .error ⟨rest, "expected eight hexadecimal digits"⟩
  | letter :: rest => (expect rest "an escape" (escapeLetter? letter)).map (·, rest)
  | [] => .error ⟨[], "expected an escape"⟩

/-- The rest of a text in double quotes. The bound is on its length. -/
def scanBasic : Nat → Scan (List Char)
  | 0, text => .error ⟨text, "expected a quote"⟩
  | _, [] => .error ⟨[], "expected a quote"⟩
  | bound + 1, c :: rest =>
      if c = '"' then .ok ([], rest)
      else if c = '\\' then do
        let (c, rest) ← scanEscape rest
        let (text, rest) ← scanBasic bound rest
        return (c :: text, rest)
      else if isPlain c then do
        let (text, rest) ← scanBasic bound rest
        return (c :: text, rest)
      else .error ⟨c :: rest, "expected a quote"⟩

/-- The rest of a text in single quotes. -/
def scanLiteral (text : List Char) : Except Fault (List Char × List Char) :=
  let inside c := isPlain c && c != '\''
  match text.dropWhile inside with
  | '\'' :: rest => .ok (text.takeWhile inside, rest)
  | rest => .error ⟨rest, "expected a quote"⟩

/-- A line end. -/
def skipNewline? : List Char → Option (List Char)
  | '\n' :: rest => some rest
  | '\r' :: '\n' :: rest => some rest
  | _ => none

/-- Blanks and line ends. -/
def skipBlankLines : List Char → List Char
  | '\r' :: '\n' :: rest => skipBlankLines rest
  | c :: rest => if isBlank c || c == '\n' then skipBlankLines rest else c :: rest
  | [] => []

/-- The rest of a text in three quotes, which may run over several lines. Up to two quotes may
stand in it anywhere, so that its end is the last three of at most five. A backslash at the end
of a line joins it to what comes after the blanks. The bound is on its length. -/
def scanLong (quote : Char) : Nat → Scan (List Char)
  | 0, text => .error ⟨text, "expected three quotes"⟩
  | bound + 1, text =>
      match text with
      | [] => .error ⟨[], "expected three quotes"⟩
      | c :: rest =>
          if c = quote then
            let quotes := text.takeWhile (· == quote)
            let after := text.dropWhile (· == quote)
            if quotes.length < 3 then do
              let (more, rest) ← scanLong quote bound after
              return (quotes ++ more, rest)
            else if quotes.length ≤ 5 then .ok (quotes.drop 3, after)
            else .error ⟨text, "expected at most five quotes"⟩
          else if c = '\\' ∧ quote = '"' then
            match skipNewline? (skipBlanks rest) with
            | some rest => scanLong quote bound (skipBlankLines rest)
            | none => do
                let (c, rest) ← scanEscape rest
                let (more, rest) ← scanLong quote bound rest
                return (c :: more, rest)
          else
            match skipNewline? text with
            | some rest => do
                let (more, rest) ← scanLong quote bound rest
                return ('\n' :: more, rest)
            | none =>
                if isPlain c then do
                  let (more, rest) ← scanLong quote bound rest
                  return (c :: more, rest)
                else .error ⟨text, "expected three quotes"⟩

/-- A text in any of the quotes. A line end right behind three quotes is not part of it. -/
def scanString (text : List Char) : Except Fault (String × List Char) :=
  let long (quote : Char) (rest : List Char) :=
    scanLong quote (rest.length + 1) ((skipNewline? rest).getD rest)
  let scanned := match text with
    | '"' :: '"' :: '"' :: rest => long '"' rest
    | '\'' :: '\'' :: '\'' :: rest => long '\'' rest
    | '"' :: rest => scanBasic (rest.length + 1) rest
    | '\'' :: rest => scanLiteral rest
    | _ => .error ⟨text, "expected a quote"⟩
  scanned.map fun (content, rest) => (String.ofList content, rest)

/-! ## Numbers -/

/-- Digits of one kind, with single underscores between them. Gives the digits alone. -/
def scanDigits? (isDigit : Char → Bool) : Probe (List Char)
  | '_' :: _ => none
  | text =>
      let rec go : List Char → Option (List Char × List Char)
        | '_' :: c :: rest =>
            if isDigit c then (go rest).map fun (digits, rest) => (c :: digits, rest) else none
        | '_' :: [] => none
        | c :: rest =>
            if isDigit c then (go rest).map fun (digits, rest) => (c :: digits, rest)
            else some ([], c :: rest)
        | [] => some ([], [])
      (go text).bind fun (digits, rest) => if digits = [] then none else some (digits, rest)

/-- The digits of a decimal number before its point: a zero alone, or digits that do not start
with one. -/
def scanWhole? : Probe (List Char)
  | '0' :: rest => some (['0'], rest)
  | text => scanDigits? Char.isDigit text

/-- An integer, if it fits into 64 bits with its sign. -/
def integer? (n : Int) : Option Item :=
  if -0x8000000000000000 ≤ n ∧ n ≤ 0x7fffffffffffffff then some (.integer n) else none

/-- An integer in another base, behind its mark. -/
def scanBased? (base : Nat) (isDigit : Char → Bool) (text : List Char) :
    Option (Item × List Char) := do
  let (digits, rest) ← scanDigits? isDigit text
  let item ← integer? (digits.foldl (fun n c => base * n + Json.hexValue c) 0 : Nat)
  return (item, rest)

/-- A number with a point or an exponent. One too large to be finite is refused; of those below
zero it is minus infinity. -/
def float? (numeral : Numeral) : Option Item :=
  let x := numeral.value
  if x = .signed false .infinity then none else some (.float x)

def scanExponent? : Probe Int
  | mark :: text => do
      let (negative, text) := Numeral.splitSign text
      let (digits, rest) ← scanDigits? Char.isDigit text
      let n : Int := Nat.ofDigitChars 10 digits 0
      if mark = 'e' ∨ mark = 'E' then some (if negative then -n else n, rest) else none
  | [] => none

/-- A decimal number, with or without a sign. -/
def scanDecimal? (text : List Char) : Option (Item × List Char) := do
  let (negative, unsigned) := Numeral.splitSign text
  let (whole, rest) ← scanWhole? unsigned
  match rest with
  | '.' :: rest => do
      let (fraction, rest) ← scanDigits? Char.isDigit rest
      let (exponent, rest) ← match rest with
        | 'e' :: _ | 'E' :: _ => scanExponent? rest
        | _ => some (0, rest)
      let item ← float? ⟨negative, whole, fraction, exponent⟩
      return (item, rest)
  | 'e' :: _ | 'E' :: _ => do
      let (exponent, rest) ← scanExponent? rest
      let item ← float? ⟨negative, whole, [], exponent⟩
      return (item, rest)
  | _ => do
      let n : Int := Nat.ofDigitChars 10 whole 0
      let item ← integer? (if negative then -n else n)
      return (item, rest)

/-- The numbers with a name, with or without a sign. -/
def scanNamed? (text : List Char) : Option (Item × List Char) :=
  let (negative, name) := Numeral.splitSign text
  match skipWord? ['i', 'n', 'f'] name, skipWord? ['n', 'a', 'n'] name with
  | some rest, _ => some (.float (.signed negative .infinity), rest)
  | _, some rest => some (.float .nan, rest)
  | none, none => none

def scanNumber? (text : List Char) : Option (Item × List Char) :=
  match text with
  | '0' :: 'x' :: rest => scanBased? 16 Json.isHexDigit rest
  | '0' :: 'o' :: rest => scanBased? 8 (fun c => '0' ≤ c && c ≤ '7') rest
  | '0' :: 'b' :: rest => scanBased? 2 (fun c => c == '0' || c == '1') rest
  | _ => (scanNamed? text).or (scanDecimal? text)

/-! ## Dates and times -/

/-- A number of exactly so many digits. -/
def scanFixed? (length : Nat) (text : List Char) : Option (Nat × List Char) :=
  let digits := text.take length
  if digits.length = length ∧ digits.all Char.isDigit then
    some (Nat.ofDigitChars 10 digits 0, text.drop length)
  else none

def daysInMonth (year month : Nat) : Nat :=
  if month = 2 then
    if year % 4 = 0 ∧ (year % 100 ≠ 0 ∨ year % 400 = 0) then 29 else 28
  else if month = 4 ∨ month = 6 ∨ month = 9 ∨ month = 11 then 30
  else 31

/-- Two digits that make a number of the given range. -/
def scanBetween? (low high : Nat) (text : List Char) : Option (List Char) :=
  match scanFixed? 2 text with
  | some (n, rest) => if low ≤ n ∧ n ≤ high then some rest else none
  | none => none

/-- The month and the day, behind the year. -/
def scanMonthDay? (year : Nat) (text : List Char) : Option (List Char) := do
  let (month, rest) ← scanFixed? 2 text
  let rest ← skipWord? ['-'] rest
  let (day, rest) ← scanFixed? 2 rest
  if 1 ≤ month ∧ month ≤ 12 ∧ 1 ≤ day ∧ day ≤ daysInMonth year month then some rest else none

/-- The minutes and seconds of a time, behind the colon after the hours. -/
def scanMinutes? (text : List Char) : Option (List Char) := do
  let rest ← scanBetween? 0 59 text
  let rest ← skipWord? [':'] rest
  let rest ← scanBetween? 0 60 rest
  match rest with
  | '.' :: c :: more => return if c.isDigit then more.dropWhile Char.isDigit else rest
  | _ => return rest

/-- How far a time is from that of Greenwich, if it is told. -/
def skipOffset? : List Char → Option (List Char)
  | 'Z' :: rest | 'z' :: rest => some rest
  | c :: rest =>
      if c = '+' ∨ c = '-' then do
        let rest ← scanBetween? 0 23 rest
        let rest ← skipWord? [':'] rest
        scanBetween? 0 59 rest
      else some (c :: rest)
  | [] => some []

/-- Whether the hours of a time and a colon stand here; what is behind them. -/
def skipHours? (text : List Char) : Option (List Char) :=
  (scanBetween? 0 23 text).bind (skipWord? [':'])

/-- What stands behind a date: a time if there is one. -/
def skipTime? (text : List Char) : Option (List Char) :=
  match text with
  | c :: rest =>
      if c = 'T' ∨ c = 't' ∨ c = ' ' then
        match skipHours? rest with
        | some rest => (scanMinutes? rest).bind skipOffset?
        | none => some text
      else some text
  | [] => some []

/-- Whether a year and a dash stand here; the year and what is behind them. -/
def scanYear? (text : List Char) : Option (Nat × List Char) := do
  let (year, rest) ← scanFixed? 4 text
  let rest ← skipWord? ['-'] rest
  return (year, rest)

/-- A value that starts with a digit or a sign. A year or an hour with its mark makes it a date
or a time, and then it can be nothing else. -/
def scanDigitItem? (text : List Char) : Option (Item × List Char) :=
  match scanYear? text with
  | some (year, rest) =>
      ((scanMonthDay? year rest).bind skipTime?).map fun rest => (.dateTime, rest)
  | none =>
      match skipHours? text with
      | some rest => (scanMinutes? rest).map fun rest => (.dateTime, rest)
      | none => scanNumber? text

/-- A value that holds no others. -/
def scanScalar (text : List Char) : Except Fault (Item × List Char) :=
  match text with
  | '"' :: _ | '\'' :: _ => (scanString text).map fun (content, rest) => (.string content, rest)
  | 't' :: _ =>
      (expect text "true" (skipWord? ['t', 'r', 'u', 'e'] text)).map (.boolean true, ·)
  | 'f' :: _ =>
      (expect text "false" (skipWord? ['f', 'a', 'l', 's', 'e'] text)).map (.boolean false, ·)
  | _ => expect text "a value" (scanDigitItem? text)

end ModuleRecovery.Toml
