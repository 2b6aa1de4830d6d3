import ModuleRecovery.Binary64

/-!
Decimal numerals: the parts of a written number, and the number nearest to it.
-/

namespace ModuleRecovery

/-- A written decimal number: digits before and after the point, and a power of ten. -/
structure Numeral where
  negative : Bool
  whole : List Char
  fraction : List Char
  exponent : Int
  deriving DecidableEq, Repr

namespace Numeral

/-- Takes one leading sign off; `true` is minus. -/
def splitSign : List Char → Bool × List Char
  | '-' :: rest => (true, rest)
  | '+' :: rest => (false, rest)
  | rest => (false, rest)

/-- The exponent after its mark: an optional sign and at least one digit, then nothing. -/
def readExponent? (text : List Char) : Option Int :=
  let (negative, digits) := splitSign text
  if digits = [] ∨ ¬digits.all Char.isDigit then none
  else
    let n : Int := Nat.ofDigitChars 10 digits 0
    some (if negative then -n else n)

/-- Reads `[sign] digits [. digits] [e exponent]` with a digit on at least one side of the
point, and nothing else around it. -/
def read? (text : List Char) : Option Numeral :=
  let (negative, unsigned) := splitSign text
  let whole := unsigned.takeWhile Char.isDigit
  let (fraction, rest) :=
    match unsigned.dropWhile Char.isDigit with
    | '.' :: rest => (rest.takeWhile Char.isDigit, rest.dropWhile Char.isDigit)
    | rest => ([], rest)
  if whole = [] ∧ fraction = [] then none
  else
    match rest with
    | [] => some ⟨negative, whole, fraction, 0⟩
    | mark :: exponent =>
        if mark = 'e' ∨ mark = 'E' then
          (readExponent? exponent).map fun e => ⟨negative, whole, fraction, e⟩
        else none

/-- The number nearest to the written one. -/
def value (n : Numeral) : Binary64 :=
  .signed n.negative
    (.ofDecimal (Nat.ofDigitChars 10 (n.whole ++ n.fraction) 0) (n.exponent - n.fraction.length))

end Numeral

/-- Reads a number as it is given on the command line: a numeral, or in any case of letters
`inf`, `infinity` or `nan`, with an optional sign. -/
def Binary64.read? (text : String) : Option Binary64 :=
  match Numeral.read? text.toList with
  | some numeral => some numeral.value
  | none =>
      let (negative, name) := Numeral.splitSign text.toList
      let name := String.ofList (name.map Char.toLower)
      if name = "inf" ∨ name = "infinity" then some (.signed negative .infinity)
      else if name = "nan" then some .nan
      else none

end ModuleRecovery
