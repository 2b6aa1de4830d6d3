/-!
Floating-point numbers of 64 bits. A magnitude is known by its rank, its place among all
magnitudes from zero up to infinity, so comparing numbers is comparing ranks. All arithmetic is
exact on naturals and then rounds once, to the nearest magnitude and at a tie to the even rank.
-/

namespace ModuleRecovery

/-- A non-negative number of the format, or infinity. The ranks below `2 ^ 52` are the subnormal
magnitudes; from there on each power of two holds `2 ^ 52` ranks. -/
structure Magnitude where
  rank : Nat
  rank_le : rank ≤ 2047 * Nat.pow 2 52
  deriving DecidableEq, Repr

/-- `num / den`, rounded to the nearest natural and at a tie to the even one. -/
def roundHalfEven (num den : Nat) : Nat :=
  let low := num / den
  let twice := 2 * (num % den)
  if twice < den then low else if den < twice then low + 1 else low + low % 2

namespace Magnitude

def infinityRank : Nat := 2047 * Nat.pow 2 52

def zero : Magnitude := ⟨0, Nat.zero_le _⟩

def infinity : Magnitude := ⟨infinityRank, Nat.le_refl _⟩

/-- The magnitude of a rank; past the last finite one all is infinity. -/
def ofRank (rank : Nat) : Magnitude := ⟨min rank infinityRank, Nat.min_le_right _ _⟩

def isFinite (x : Magnitude) : Bool := x.rank < infinityRank

/-- A finite magnitude is `significand * 2 ^ exponent`. -/
def significand (x : Magnitude) : Nat :=
  if x.rank < Nat.pow 2 53 then x.rank else Nat.pow 2 52 + x.rank % Nat.pow 2 52

def exponent (x : Magnitude) : Int :=
  if x.rank < Nat.pow 2 53 then -1074 else (x.rank / Nat.pow 2 52 : Nat) - 1075

/-- The numerator of a finite magnitude written as a fraction. -/
def numerator (x : Magnitude) : Nat := x.significand * Nat.pow 2 x.exponent.toNat

def denominator (x : Magnitude) : Nat := Nat.pow 2 (-x.exponent).toNat

/-- The greatest `d` with `2 ^ d ≤ num / den`, for positive `num` and `den`. -/
def binade (num den : Nat) : Int :=
  let d : Int := (num.log2 : Int) - den.log2
  if den * Nat.pow 2 d.toNat ≤ num * Nat.pow 2 (-d).toNat then d else d - 1

/-- The magnitude nearest to `num / den`, for positive `den`. The significand is cut at the
53rd bit, or at `2 ^ -1074` where the format gets no finer; a significand that rounds up to
`2 ^ 53` lands on the first rank of the next power of two by itself. -/
def ofRatio (num den : Nat) : Magnitude :=
  if num = 0 then zero
  else
    let q := max (binade num den - 52) (-1074)
    ofRank ((q + 1074).toNat * Nat.pow 2 52 +
      roundHalfEven (num * Nat.pow 2 (-q).toNat) (den * Nat.pow 2 q.toNat))

def ofNat (n : Nat) : Magnitude := ofRatio n 1

/-- The magnitude nearest to `digits * 10 ^ exponent`. From `10 ^ 310` on all is infinity and
below `10 ^ -324` all is zero, so no greater power of ten is ever computed. -/
def ofDecimal (digits : Nat) (exponent : Int) : Magnitude :=
  if digits = 0 then zero
  else if 310 ≤ exponent then infinity
  else if exponent + digits.log2 + 1 ≤ -324 then zero
  else ofRatio (digits * Nat.pow 10 exponent.toNat) (Nat.pow 10 (-exponent).toNat)

/-- The rounded product of two finite magnitudes. -/
def mul (x y : Magnitude) : Magnitude :=
  ofRatio (x.numerator * y.numerator) (x.denominator * y.denominator)

/-- The rounded quotient of a finite magnitude by a finite one above zero. -/
def div (x y : Magnitude) : Magnitude :=
  ofRatio (x.numerator * y.denominator) (x.denominator * y.numerator)

end Magnitude

/-- A number of the format: a signed magnitude, or not a number. Zero has both signs. -/
inductive Binary64 where
  | nan
  | signed (negative : Bool) (magnitude : Magnitude)
  deriving DecidableEq, Repr

namespace Binary64

def zero : Binary64 := .signed false .zero

def ofNat (n : Nat) : Binary64 := .signed false (.ofNat n)

def ofInt (n : Int) : Binary64 := .signed (n < 0) (.ofNat n.natAbs)

/-- The quotient of two counts, each of them rounded to the format first. -/
def quotient (part whole : Nat) : Binary64 :=
  .signed false ((Magnitude.ofNat part).div (.ofNat whole))

def isFinite : Binary64 → Bool
  | nan => false
  | signed _ magnitude => magnitude.isFinite

/-- The place on the number line counted in ranks from zero; both zeros have the same. -/
def place? : Binary64 → Option Int
  | nan => none
  | signed negative magnitude => some (if negative then -magnitude.rank else magnitude.rank)

/-- The order of numbers; what is not a number is in no relation to anything. -/
def lt (x y : Binary64) : Bool :=
  match x.place?, y.place? with
  | some a, some b => a < b
  | _, _ => false

def le (x y : Binary64) : Bool :=
  match x.place?, y.place? with
  | some a, some b => a ≤ b
  | _, _ => false

instance : LT Binary64 := ⟨fun x y => lt x y = true⟩

instance : LE Binary64 := ⟨fun x y => le x y = true⟩

instance (x y : Binary64) : Decidable (x < y) := inferInstanceAs (Decidable (lt x y = true))

instance (x y : Binary64) : Decidable (x ≤ y) := inferInstanceAs (Decidable (le x y = true))

end Binary64

end ModuleRecovery
