import ModuleRecovery.Binary64

/-!
Decimal digits of a number: the fewest that read back to it, and the digits at a set number of
places. How they are laid out is a `NumberStyle`, one for each kind of text that holds numbers.
-/

namespace ModuleRecovery

/-- The decimal number `digits * 10 ^ exponent`. -/
structure Decimal where
  digits : Nat
  exponent : Int
  deriving DecidableEq, Repr

/-- Which of two equally near candidates is taken. -/
inductive Tie where
  | toEven
  | up
  deriving DecidableEq, Repr

namespace Decimal

/-- The number in the format that is nearest. -/
def magnitude (d : Decimal) : Magnitude := .ofDecimal d.digits d.exponent

/-- Moves the zeros at the end of the digits into the exponent. -/
def trim (d : Decimal) : Decimal :=
  if h : d.digits ≠ 0 ∧ d.digits % 10 = 0 then trim ⟨d.digits / 10, d.exponent + 1⟩ else d
termination_by d.digits
decreasing_by omega

/-- The exponent of the leading digit of a fraction above zero: one less than the number of
digits of its whole part, or from `10 ^ -k ≤ x < 10 ^ (1 - k)` the `k` of a fraction below one. -/
def leadingExponent (num den : Nat) : Int :=
  if den ≤ num then ((Nat.toDigits 10 (num / den)).length : Int) - 1
  else -((Nat.toDigits 10 ((den - 1) / num)).length : Int)

/-- The decimal of `count` digits that reads back to `x`, if its two neighbours of that length
hold one: the nearer of them, or at a tie as `tie` says. -/
def ofLength? (tie : Tie) (x : Magnitude) (count : Nat) : Option Decimal :=
  let grid := leadingExponent x.numerator x.denominator + 1 - count
  let num := x.numerator * Nat.pow 10 (-grid).toNat
  let den := x.denominator * Nat.pow 10 grid.toNat
  let low : Decimal := ⟨num / den, grid⟩
  let high : Decimal := ⟨num / den + 1, grid⟩
  if low.magnitude = x then
    if high.magnitude = x then
      let middle := (2 * low.digits + 1) * den
      if 2 * num < middle then some low
      else if middle < 2 * num then some high
      else if tie = .toEven ∧ low.digits % 2 = 0 then some low
      else some high
    else some low
  else if high.magnitude = x then some high
  else none

/-- The whole expansion of a finite magnitude. -/
def exact (x : Magnitude) : Decimal :=
  if 0 ≤ x.exponent then ⟨x.numerator, 0⟩
  else ⟨x.significand * Nat.pow 5 (-x.exponent).toNat, x.exponent⟩

/-- The fewest digits that read back to a finite magnitude above zero. Seventeen are always
enough; the whole expansion stands in where none of the tried lengths does. -/
def shortest (tie : Tie) (x : Magnitude) : Decimal :=
  ((((List.range 17).findSome? fun i => ofLength? tie x (i + 1)).getD (exact x))).trim

end Decimal

/-- How numbers are written in one kind of text. -/
structure NumberStyle where
  /-- The exponents of a leading digit from the first up to below the second are written without
  a power of ten; all are if this is absent. -/
  plain : Option (Int × Int)
  /-- A whole number ends in `.0`. -/
  pointZero : Bool
  /-- A power of ten above zero carries a plus sign. -/
  plusSign : Bool
  tie : Tie
  nan : String
  infinity : String

namespace NumberStyle

def zeros (count : Int) : List Char := List.replicate count.toNat '0'

/-- Digits with the point set after the first `point` of them, zeros filled in as needed. -/
def layPlain (style : NumberStyle) (digits : List Char) (point : Int) : List Char :=
  if point ≤ 0 then '0' :: '.' :: zeros (-point) ++ digits
  else if digits.length ≤ point then
    digits ++ zeros (point - digits.length) ++ (if style.pointZero then ['.', '0'] else [])
  else digits.take point.toNat ++ '.' :: digits.drop point.toNat

/-- One digit, the others behind a point, and the power of ten. -/
def layScientific (style : NumberStyle) (digits : List Char) (leading : Int) : List Char :=
  digits.take 1 ++ (if digits.length ≤ 1 then [] else '.' :: digits.drop 1) ++ 'e' ::
    (if leading < 0 then ['-'] else if style.plusSign then ['+'] else []) ++
    Nat.toDigits 10 leading.natAbs

/-- A finite magnitude by its fewest digits. -/
def layMagnitude (style : NumberStyle) (x : Magnitude) : List Char :=
  if x.rank = 0 then if style.pointZero then ['0', '.', '0'] else ['0']
  else
    let d := Decimal.shortest style.tie x
    let digits := Nat.toDigits 10 d.digits
    let point := d.exponent + digits.length
    if style.plain.all fun range => range.1 < point ∧ point ≤ range.2 then
      style.layPlain digits point
    else style.layScientific digits (point - 1)

def lay (style : NumberStyle) : Binary64 → List Char
  | .nan => style.nan.toList
  | .signed negative magnitude =>
      (if negative then ['-'] else []) ++
        if magnitude.isFinite then style.layMagnitude magnitude else style.infinity.toList

def write (style : NumberStyle) (x : Binary64) : String := String.ofList (style.lay x)

/-- In running text: the fewest digits and never a power of ten. -/
def prose : NumberStyle where
  plain := none
  pointZero := false
  plusSign := false
  tie := .up
  nan := "NaN"
  infinity := "inf"

end NumberStyle

/-- A number at four places, as averages are listed: the exact value rounded, a tie to the even
digit; a minus sign stays in front of a zero. -/
def Binary64.fourPlaces : Binary64 → String
  | nan => "NaN"
  | signed negative magnitude =>
      let sign := if negative then "-" else ""
      if magnitude.isFinite then
        let n := roundHalfEven (magnitude.numerator * 10000) magnitude.denominator
        let digits := Nat.toDigits 10 (n % 10000)
        sign ++ toString (n / 10000) ++ "." ++
          String.ofList (List.replicate (4 - digits.length) '0' ++ digits)
      else sign ++ "inf"

end ModuleRecovery
