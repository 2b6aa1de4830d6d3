import ModuleRecovery.Numeral
import ModuleRecovery.Decimal

/-!
JSON documents. Numbers and texts are kept as they are written, and what they mean is worked out
only where it is asked for: a number that is out of range, or a text with half of a surrogate
pair, does no harm in a part of a document that nobody reads.
-/

namespace ModuleRecovery

/-- A JSON document. Texts and field names are held as they stand between the quotes. -/
inductive Json where
  | null
  | bool (b : Bool)
  | number (literal : List Char)
  | string (literal : List Char)
  | array (items : List Json)
  | object (fields : List (List Char × Json))
  deriving Repr, Inhabited

namespace Json

/-! ## Texts -/

/-- The sixteen digits, letters in lower case. -/
def hexDigit (n : Nat) : Char := Nat.digitChar n

def isHexDigit (c : Char) : Bool :=
  c.isDigit || ('a' ≤ c && c ≤ 'f') || ('A' ≤ c && c ≤ 'F')

def hexValue (c : Char) : Nat :=
  if c.isDigit then c.toNat - '0'.toNat
  else if 'a' ≤ c then c.toNat - 'a'.toNat + 10
  else c.toNat - 'A'.toNat + 10

def hexNumber (digits : List Char) : Nat := digits.foldl (fun n c => 16 * n + hexValue c) 0

/-- A character as it is written in a text: quotes, backslashes and control characters are
escaped, all others stand for themselves. -/
def escapeChar (c : Char) : List Char :=
  if c = '"' then ['\\', '"']
  else if c = '\\' then ['\\', '\\']
  else if c = '\x08' then ['\\', 'b']
  else if c = '\t' then ['\\', 't']
  else if c = '\n' then ['\\', 'n']
  else if c = '\x0c' then ['\\', 'f']
  else if c = '\r' then ['\\', 'r']
  else if c.toNat < 32 then ['\\', 'u', '0', '0', hexDigit (c.toNat / 16), hexDigit (c.toNat % 16)]
  else [c]

def escape (text : String) : List Char := text.toList.flatMap escapeChar

/-- The character of an escape of one letter. -/
def unescapeLetter? (c : Char) : Option Char :=
  if c = '"' ∨ c = '\\' ∨ c = '/' then some c
  else if c = 'b' then some '\x08'
  else if c = 't' then some '\t'
  else if c = 'n' then some '\n'
  else if c = 'f' then some '\x0c'
  else if c = 'r' then some '\r'
  else none

def isLeadingHalf (unit : Nat) : Bool := 0xD800 ≤ unit && unit < 0xDC00

def isTrailingHalf (unit : Nat) : Bool := 0xDC00 ≤ unit && unit < 0xE000

/-- The characters that a literal stands for. An escape for half of a surrogate pair stands for
a character only together with the other half right after it. -/
def unescape? : List Char → Option (List Char)
  | [] => some []
  | '\\' :: 'u' :: a :: b :: c :: d :: rest =>
      let unit := hexNumber [a, b, c, d]
      if isLeadingHalf unit then
        match rest with
        | '\\' :: 'u' :: e :: f :: g :: h :: more =>
            let second := hexNumber [e, f, g, h]
            if isTrailingHalf second then
              (unescape? more).map
                (Char.ofNat (0x10000 + (unit - 0xD800) * 0x400 + (second - 0xDC00)) :: ·)
            else none
        | _ => none
      else if isTrailingHalf unit then none
      else (unescape? rest).map (Char.ofNat unit :: ·)
  | '\\' :: letter :: rest =>
      (unescapeLetter? letter).bind fun c => (unescape? rest).map (c :: ·)
  | c :: rest => (unescape? rest).map (c :: ·)

/-- The text that a literal stands for, if it is one. -/
def text? (literal : List Char) : Option String := (unescape? literal).map String.ofList

/-! ## Numbers -/

/-- What may follow the digits before the exponent: nothing, or an exponent with a digit. -/
def isExponentPart : List Char → Bool
  | [] => true
  | mark :: rest =>
      let digits := (Numeral.splitSign rest).2
      (mark == 'e' || mark == 'E') && !digits.isEmpty && digits.all Char.isDigit

/-- What may follow the digits before the point. -/
def isFractionPart : List Char → Bool
  | '.' :: rest =>
      !(rest.takeWhile Char.isDigit).isEmpty && isExponentPart (rest.dropWhile Char.isDigit)
  | rest => isExponentPart rest

/-- Whether the characters are a number: a minus sign if any, a zero or digits that do not start
with one, and then a fraction and an exponent if any. -/
def isNumber (literal : List Char) : Bool :=
  let unsigned := match literal with
    | '-' :: rest => rest
    | rest => rest
  let whole := unsigned.takeWhile Char.isDigit
  (whole == ['0'] || (!whole.isEmpty && whole.head? != some '0')) &&
    isFractionPart (unsigned.dropWhile Char.isDigit)

def largestWord : Nat := 0xffffffffffffffff

/-- The count that a literal stands for: digits alone, and no more than fit into 64 bits. -/
def count? (literal : List Char) : Option Nat :=
  if literal.isEmpty ∨ ¬literal.all Char.isDigit then none
  else
    let n := Nat.ofDigitChars 10 literal 0
    if n ≤ largestWord then some n else none

/-- Takes digits as long as the number they make fits into 64 bits. Gives that number, how many
digits it took, and how many are left. -/
def leadingDigits : List Char → Nat → Nat → Nat × Nat × Nat
  | [], significand, taken => (significand, taken, 0)
  | c :: rest, significand, taken =>
      let longer := 10 * significand + (c.toNat - '0'.toNat)
      if longer ≤ largestWord then leadingDigits rest longer (taken + 1)
      else (significand, taken, rest.length + 1)

/-- Scales a finite magnitude by a power of ten in rounded steps of at most `10 ^ 308`. There is
none if the result is too large to be finite. -/
def scale? (x : Magnitude) (exponent : Int) : Option Magnitude :=
  if exponent.natAbs ≤ 308 then
    let power := Magnitude.ofDecimal 1 exponent.natAbs
    if 0 ≤ exponent then
      let y := x.mul power
      if y.isFinite then some y else none
    else some (x.div power)
  else if x = .zero then some x
  else if 0 < exponent then none
  else scale? (x.div (.ofDecimal 1 308)) (exponent + 308)
termination_by (-exponent).toNat
decreasing_by omega

/-- The number that a literal stands for: its leading digits up to 64 bits, rounded to the
format, and then scaled by the power of ten that is left. Where neither step has to round, it is
the number nearest to the written one; else it may be a neighbour. -/
def binary64? (literal : List Char) : Option Binary64 := do
  let numeral ← Numeral.read? literal
  let (whole, _, dropped) := leadingDigits numeral.whole 0 0
  let (significand, places, _) := leadingDigits numeral.fraction whole 0
  let magnitude ← scale? (.ofNat significand) (dropped - places + numeral.exponent)
  return .signed numeral.negative magnitude

/-! ## Building documents -/

def ofNat (n : Nat) : Json := .number (Nat.toDigits 10 n)

def ofText (text : String) : Json := .string (escape text)

/-- A document of named fields. -/
def ofFields (fields : List (String × Json)) : Json :=
  .object (fields.map fun (name, value) => (escape name, value))

def ofTexts (texts : List String) : Json := .array (texts.map ofText)

/-- In a document: the fewest digits, with a power of ten from `1e+16` on and below `0.00001`. -/
def numberStyle : NumberStyle where
  plain := some (-5, 16)
  pointZero := true
  plusSign := true
  tie := .toEven
  nan := "null"
  infinity := "null"

/-- A number; what is not finite has no number in a document and is `null`. -/
def ofBinary64 (x : Binary64) : Json :=
  if x.isFinite then .number (numberStyle.lay x) else .null

/-- A value, or `null` where there is none. -/
def ofOption {α : Type} (encode : α → Json) : Option α → Json
  | none => .null
  | some value => encode value

end Json

end ModuleRecovery
