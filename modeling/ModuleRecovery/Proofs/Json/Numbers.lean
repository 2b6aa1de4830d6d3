import ModuleRecovery.Json
import ModuleRecovery.Proofs.Decimals

/-!
Numbers in documents. A count is written by its digits and read back; a finite number is written
in the form of a number, in plain places or with a power of ten. Main statements: both forms are
numbers of a document; a count that fits into 64 bits has a value as a number too; and no number
that is read is infinite, because only a significand of 64 bits is ever scaled.
-/

namespace ModuleRecovery

/-! ## Digits -/

/-- Only zero is written with a zero in front. -/
theorem head?_toDigits {n : Nat} (hn : 0 < n) : (Nat.toDigits 10 n).head? ≠ some '0' := by
  induction n using Nat.strongRecOn with
  | _ n ih =>
      rcases Nat.lt_or_ge n 10 with hlt | hge
      · rw [Nat.toDigits_of_lt_base hlt, List.head?_cons, Ne, Option.some.injEq,
          Nat.digitChar_eq_zero]
        omega
      · rw [Nat.toDigits_of_base_le (by decide) hge,
          List.head?_append_of_ne_nil _ Nat.toDigits_ne_nil]
        exact ih (n / 10) (by omega) (by omega)

/-- A character of a kind differs from one that is not of the kind. -/
theorem ne_of_kind {kind : Char → Bool} {c d : Char} (hc : kind c = true) (hd : kind d = false) :
    c ≠ d := by
  rintro rfl
  rw [hc] at hd
  cases hd

namespace Json

/-- The digits before a point: digits that do not start with a zero, or a zero alone. -/
structure IsWhole (digits : List Char) : Prop where
  isDigit : ∀ c ∈ digits, c.isDigit = true
  ne_nil : digits ≠ []
  eq_zero : digits.head? = some '0' → digits = ['0']

theorem isWhole_toDigits (n : Nat) : IsWhole (Nat.toDigits 10 n) where
  isDigit := fun _ hc => Nat.isDigit_of_mem_toDigits (by decide) (by decide) hc
  ne_nil := Nat.toDigits_ne_nil
  eq_zero := by
    intro hhead
    rcases Nat.eq_zero_or_pos n with rfl | hn
    · rfl
    · exact absurd hhead (head?_toDigits hn)

theorem isWhole_zero : IsWhole ['0'] := isWhole_toDigits 0

theorem IsWhole.exists_cons {digits : List Char} (h : IsWhole digits) :
    ∃ c more, digits = c :: more ∧ c.isDigit = true := by
  obtain ⟨c, more, rfl⟩ := List.exists_cons_of_ne_nil h.ne_nil
  exact ⟨c, more, rfl, h.isDigit c List.mem_cons_self⟩

/-- In front of digits a sign is taken off, and nothing else is. -/
theorem IsWhole.splitSign_append {whole : List Char} (h : IsWhole whole) (negative : Bool)
    (rest : List Char) :
    Numeral.splitSign ((if negative then ['-'] else []) ++ (whole ++ rest)) =
      (negative, whole ++ rest) := by
  obtain ⟨c, digits, rfl, hc⟩ := h.exists_cons
  cases negative with
  | true => rfl
  | false =>
      change Numeral.splitSign (c :: (digits ++ rest)) = (false, c :: (digits ++ rest))
      rw [Numeral.splitSign]
      · exact fun _ h => ne_of_kind hc rfl (List.cons.inj h).1
      · exact fun _ h => ne_of_kind hc rfl (List.cons.inj h).1

theorem takeWhile_append {digits : List Char} (hdigits : ∀ c ∈ digits, c.isDigit = true)
    (rest : List Char) (hrest : rest.takeWhile Char.isDigit = []) :
    (digits ++ rest).takeWhile Char.isDigit = digits ∧
      (digits ++ rest).dropWhile Char.isDigit = rest := by
  have hdrop : rest.dropWhile Char.isDigit = rest := by
    simpa [hrest] using List.takeWhile_append_dropWhile (p := Char.isDigit) (l := rest)
  rw [List.takeWhile_append_of_pos hdigits, List.dropWhile_append_of_pos hdigits, hrest, hdrop,
    List.append_nil]
  exact ⟨rfl, rfl⟩

/-- A number without its sign: the digits before the point, and what may follow them. -/
def IsUnsigned (literal : List Char) : Prop :=
  ∃ whole rest, literal = whole ++ rest ∧ IsWhole whole ∧ rest.takeWhile Char.isDigit = [] ∧
    isFractionPart rest = true

theorem IsUnsigned.isNumber {literal : List Char} (h : IsUnsigned literal) (negative : Bool) :
    isNumber ((if negative then ['-'] else []) ++ literal) = true := by
  obtain ⟨whole, rest, rfl, hwhole, hrest, hfraction⟩ := h
  obtain ⟨htake, hdrop⟩ := takeWhile_append hwhole.isDigit rest hrest
  have hbody : ((whole == ['0'] || (!whole.isEmpty && whole.head? != some '0')) &&
      isFractionPart rest) = true := by
    by_cases hzero : whole = ['0']
    · simp [hzero, hfraction]
    · have hhead : whole.head? ≠ some '0' := fun hhead => hzero (hwhole.eq_zero hhead)
      simp [hhead, hwhole.ne_nil, hfraction]
  cases negative with
  | true =>
      change Json.isNumber ('-' :: (whole ++ rest)) = true
      simpa only [Json.isNumber, htake, hdrop] using hbody
  | false =>
      obtain ⟨c, digits, rfl⟩ := List.exists_cons_of_ne_nil hwhole.ne_nil
      change Json.isNumber (c :: digits ++ rest) = true
      have hsign : c ≠ '-' := by
        rintro rfl
        exact absurd (hwhole.isDigit '-' List.mem_cons_self) (by decide)
      unfold Json.isNumber
      split
      · rename_i heq
        cases heq
        exact absurd rfl hsign
      · simpa only [htake, hdrop] using hbody

theorem isUnsigned_toDigits (n : Nat) : IsUnsigned (Nat.toDigits 10 n) :=
  ⟨_, [], (List.append_nil _).symm, isWhole_toDigits n, rfl, rfl⟩

theorem isNumber_toDigits (n : Nat) : isNumber (Nat.toDigits 10 n) = true :=
  (isUnsigned_toDigits n).isNumber false

/-! ## Written numbers -/

theorem isFractionPart_point {fraction : List Char}
    (hfraction : ∀ c ∈ fraction, c.isDigit = true) (hne : fraction ≠ []) (rest : List Char)
    (hrest : rest.takeWhile Char.isDigit = []) :
    isFractionPart ('.' :: (fraction ++ rest)) = isExponentPart rest := by
  obtain ⟨htake, hdrop⟩ := takeWhile_append hfraction rest hrest
  simp [isFractionPart, htake, hdrop, hne]

theorem isFractionPart_digits {fraction : List Char} (hfraction : ∀ c ∈ fraction, c.isDigit = true)
    (hne : fraction ≠ []) : isFractionPart ('.' :: fraction) = true := by
  have h := isFractionPart_point hfraction hne [] rfl
  rwa [List.append_nil] at h

theorem isExponentPart_toDigits (negative : Bool) (n : Nat) :
    isExponentPart ('e' :: (if negative then '-' else '+') :: Nat.toDigits 10 n) = true := by
  have hdigits : ∀ c ∈ Nat.toDigits 10 n, c.isDigit = true := (isWhole_toDigits n).isDigit
  cases negative <;> simp [isExponentPart, Numeral.splitSign, Nat.toDigits_ne_nil] <;> exact hdigits

theorem isDigit_zeros {count : Int} {c : Char} (h : c ∈ NumberStyle.zeros count) :
    c.isDigit = true := by
  rw [List.eq_of_mem_replicate h]
  rfl

/-- Digits laid out without a power of ten, in a style in which whole numbers end in a point and a
zero, stand before and behind a point and for the same number. -/
theorem exists_layPlain {style : NumberStyle} (hstyle : style.pointZero = true) {n : Nat}
    (hn : 0 < n) (exponent : Int) :
    let digits := Nat.toDigits 10 n
    ∃ whole fraction,
      style.layPlain digits (exponent + digits.length) = whole ++ '.' :: fraction ∧
      IsWhole whole ∧ (∀ c ∈ fraction, c.isDigit = true) ∧ fraction ≠ [] ∧
      (Decimal.mk (Nat.ofDigitChars 10 (whole ++ fraction) 0) (-fraction.length)).value =
        (Decimal.mk n exponent).value := by
  intro digits
  have hdigits : IsWhole digits := isWhole_toDigits n
  have hhead := head?_toDigits hn
  have hvalue : Nat.ofDigitChars 10 digits 0 = n := Nat.ofDigitChars_ten_toDigits
  generalize hpoint : exponent + digits.length = point
  unfold NumberStyle.layPlain
  split
  · -- below one: a zero, the point and zeros before the digits
    let fraction := NumberStyle.zeros (-point) ++ digits
    refine ⟨['0'], fraction, rfl, isWhole_zero, ?_,
      List.append_ne_nil_of_right_ne_nil _ hdigits.ne_nil, ?_⟩
    · intro c hc
      rcases List.mem_append.1 hc with hzero | hdigit
      · exact isDigit_zeros hzero
      · exact hdigits.isDigit c hdigit
    · have hlength : -(fraction.length : Int) = exponent := by
        simp only [fraction, List.length_append, NumberStyle.zeros, List.length_replicate]
        omega
      have hall : Nat.ofDigitChars 10 (['0'] ++ fraction) 0 = n := by
        simp only [fraction, NumberStyle.zeros, Nat.ofDigitChars_append,
          Nat.ofDigitChars_replicate_zero]
        exact hvalue
      rw [hlength, hall]
  · split
    · -- a whole number: zeros behind the digits
      rename_i hlength
      let whole := digits ++ NumberStyle.zeros (point - digits.length)
      refine ⟨whole, ['0'], rfl, ⟨?_, ?_, ?_⟩, isWhole_zero.isDigit, isWhole_zero.ne_nil, ?_⟩
      · intro c hc
        rcases List.mem_append.1 hc with hdigit | hzero
        · exact hdigits.isDigit c hdigit
        · exact isDigit_zeros hzero
      · exact List.append_ne_nil_of_left_ne_nil hdigits.ne_nil _
      · rw [List.head?_append_of_ne_nil _ hdigits.ne_nil]
        exact fun h => absurd h hhead
      · obtain ⟨places, rfl⟩ : ∃ places : Nat, exponent = places := ⟨exponent.toNat, by omega⟩
        have hplaces : (point - digits.length).toNat = places := by omega
        have hall : Nat.ofDigitChars 10 (whole ++ ['0']) 0 = 10 * (10 ^ places * n) := by
          simp only [whole, NumberStyle.zeros, hplaces, Nat.ofDigitChars_append,
            Nat.ofDigitChars_replicate_zero, hvalue]
          rfl
        simp only [Decimal.value, hall, zpow_natCast]
        push_cast
        norm_num
        ring
    · -- the point among the digits
      rename_i hpos hlength
      refine ⟨digits.take point.toNat, digits.drop point.toNat, rfl, ⟨?_, ?_, ?_⟩, ?_, ?_, ?_⟩
      · intro c hc
        exact hdigits.isDigit c (List.mem_of_mem_take hc)
      · rw [Ne, List.take_eq_nil_iff, not_or]
        exact ⟨by omega, hdigits.ne_nil⟩
      · rw [List.head?_take, if_neg (by omega)]
        exact fun h => absurd h hhead
      · exact fun c hc => hdigits.isDigit c (List.mem_of_mem_drop hc)
      · rw [Ne, List.drop_eq_nil_iff]
        omega
      · have hexponent : -((digits.drop point.toNat).length : Int) = exponent := by
          rw [List.length_drop]
          omega
        rw [hexponent, List.take_append_drop, hvalue]

theorem isUnsigned_layPlain {n : Nat} (hn : 0 < n) (exponent : Int) :
    IsUnsigned (numberStyle.layPlain (Nat.toDigits 10 n)
      (exponent + (Nat.toDigits 10 n).length)) := by
  obtain ⟨whole, fraction, hlay, hwhole, hfraction, hne, -⟩ :=
    exists_layPlain (rfl : numberStyle.pointZero = true) hn exponent
  exact ⟨whole, '.' :: fraction, hlay, hwhole, rfl, isFractionPart_digits hfraction hne⟩

theorem isUnsigned_layScientific {n : Nat} (hn : 0 < n) (leading : Int) :
    IsUnsigned (numberStyle.layScientific (Nat.toDigits 10 n) leading) := by
  have hdigits := isWhole_toDigits n
  have hhead := head?_toDigits hn
  let power := 'e' :: (if decide (leading < 0) then '-' else '+') :: Nat.toDigits 10 leading.natAbs
  have hpower : isExponentPart power = true := isExponentPart_toDigits _ _
  let rest :=
    (if (Nat.toDigits 10 n).length ≤ 1 then [] else '.' :: (Nat.toDigits 10 n).drop 1) ++ power
  refine ⟨(Nat.toDigits 10 n).take 1, rest, ?_, ⟨?_, ?_, ?_⟩, ?_, ?_⟩
  · simp only [NumberStyle.layScientific, rest, power, numberStyle]
    by_cases hneg : leading < 0 <;> simp [hneg]
  · intro c hc
    exact hdigits.isDigit c (List.mem_of_mem_take hc)
  · rw [Ne, List.take_eq_nil_iff, not_or]
    exact ⟨by decide, hdigits.ne_nil⟩
  · rw [List.head?_take, if_neg (by decide)]
    exact fun h => absurd h hhead
  · simp only [rest]
    split <;> rfl
  · simp only [rest]
    split
    · exact hpower
    · rename_i hlength
      have hne : (Nat.toDigits 10 n).drop 1 ≠ [] := by
        rw [Ne, List.drop_eq_nil_iff]
        omega
      have hfraction : ∀ c ∈ (Nat.toDigits 10 n).drop 1, c.isDigit = true :=
        fun c hc => hdigits.isDigit c (List.mem_of_mem_drop hc)
      rw [List.cons_append, isFractionPart_point hfraction hne _ rfl]
      exact hpower


theorem isUnsigned_layMagnitude (x : Magnitude) : IsUnsigned (numberStyle.layMagnitude x) := by
  unfold NumberStyle.layMagnitude
  split
  · exact ⟨['0'], ['.', '0'], rfl, isWhole_zero, rfl, rfl⟩
  · rename_i hrank
    have hdigits := Decimal.digits_shortest_pos numberStyle.tie (Nat.pos_of_ne_zero hrank)
    dsimp only
    split
    · exact isUnsigned_layPlain hdigits _
    · exact isUnsigned_layScientific hdigits _

/-- A finite number is written as a number. -/
theorem isNumber_lay {x : Binary64} (h : x.isFinite = true) :
    isNumber (numberStyle.lay x) = true := by
  cases x with
  | nan => cases h
  | signed negative magnitude =>
      have hfinite : magnitude.isFinite = true := h
      rw [NumberStyle.lay, if_pos hfinite]
      exact (isUnsigned_layMagnitude magnitude).isNumber negative

/-! ## What is read -/

theorem count?_toDigits {n : Nat} (h : n ≤ largestWord) : count? (Nat.toDigits 10 n) = some n := by
  have hdigits : ((Nat.toDigits 10 n).all Char.isDigit) = true :=
    List.all_eq_true.2 (isWhole_toDigits n).isDigit
  simp [count?, hdigits, Nat.toDigits_ne_nil, h]

theorem le_of_count? {literal : List Char} {n : Nat} (h : count? literal = some n) :
    n ≤ largestWord := by
  unfold count? at h
  grind

theorem leadingDigits_le (digits : List Char) {significand : Nat} (taken : Nat)
    (h : significand ≤ largestWord) : (leadingDigits digits significand taken).1 ≤ largestWord := by
  induction digits generalizing significand taken with
  | nil => exact h
  | cons c rest ih =>
      rw [leadingDigits]
      split
      · rename_i hlonger
        exact ih _ hlonger
      · exact h

theorem le_ofDigitChars (digits : List Char) (n : Nat) : n ≤ Nat.ofDigitChars 10 digits n := by
  induction digits generalizing n with
  | nil => exact le_rfl
  | cons c rest ih =>
      rw [Nat.ofDigitChars_cons]
      exact le_trans (by omega) (ih _)

/-- Digits that make a number of 64 bits are all taken. -/
theorem leadingDigits_eq (digits : List Char) (significand taken : Nat)
    (h : Nat.ofDigitChars 10 digits significand ≤ largestWord) :
    leadingDigits digits significand taken =
      (Nat.ofDigitChars 10 digits significand, taken + digits.length, 0) := by
  induction digits generalizing significand taken with
  | nil => rfl
  | cons c rest ih =>
      rw [Nat.ofDigitChars_cons] at h
      have hlonger := (le_ofDigitChars rest _).trans h
      rw [leadingDigits, if_pos hlonger, ih _ _ h, Nat.ofDigitChars_cons, List.length_cons,
        Nat.add_assoc, Nat.add_comm 1]

/-- No greater than a word of 64 bits, rounded. -/
def IsWordSized (x : Magnitude) : Prop := x.rank ≤ (Magnitude.ofNat largestWord).rank

theorem IsWordSized.isFinite {x : Magnitude} (h : IsWordSized x) : x.isFinite = true := by
  have hword : (Magnitude.ofNat largestWord).rank < Magnitude.infinityRank := by decide +kernel
  exact decide_eq_true (h.trans_lt hword)

/-- A division by one or more leaves a magnitude word-sized. -/
theorem IsWordSized.div {x y : Magnitude} (hx : IsWordSized x)
    (hy : (Magnitude.ofNat 1).rank ≤ y.rank) : IsWordSized (x.div y) := by
  have hone : ((Magnitude.ofNat largestWord).div (.ofNat 1)).rank =
      (Magnitude.ofNat largestWord).rank := by
    decide +kernel
  exact (Magnitude.rank_div_mono hx hy (by decide +kernel)).trans_eq hone

theorem one_le_ofDecimal {exponent : Nat} (h : exponent ≤ 308) :
    (Magnitude.ofNat 1).rank ≤ (Magnitude.ofDecimal 1 exponent).rank := by
  have hlog : Nat.log2 1 = 0 := by decide
  have hpow : 0 < Nat.pow 10 exponent := Nat.pow_pos (by decide)
  have hdecimal : Magnitude.ofDecimal 1 exponent = .ofRatio (Nat.pow 10 exponent) 1 := by
    unfold Magnitude.ofDecimal
    rw [if_neg (by decide), if_neg (by omega), if_neg (by omega)]
    simp
  rw [hdecimal]
  exact Magnitude.ofRatio_mono Nat.one_pos Nat.one_pos (by omega)

/-- A word-sized magnitude is scaled to a finite one or not at all. -/
theorem isFinite_of_scale? {x y : Magnitude} {exponent : Int} (hx : IsWordSized x)
    (h : scale? x exponent = some y) : y.isFinite = true := by
  induction x, exponent using scale?.induct with
  | case1 x exponent hsmall power hpos scaled hfinite =>
      rw [scale?, if_pos hsmall] at h
      simp only [if_pos hpos] at h
      rw [if_pos hfinite, Option.some.injEq] at h
      exact h ▸ hfinite
  | case2 x exponent hsmall power hpos scaled hinfinite =>
      rw [scale?, if_pos hsmall] at h
      simp only [if_pos hpos] at h
      rw [if_neg hinfinite] at h
      cases h
  | case3 x exponent hsmall hneg =>
      rw [scale?, if_pos hsmall] at h
      simp only [if_neg hneg, Option.some.injEq] at h
      exact h ▸ (hx.div (one_le_ofDecimal hsmall)).isFinite
  | case4 exponent hlarge =>
      rw [scale?, if_neg hlarge, if_pos rfl, Option.some.injEq] at h
      exact h ▸ hx.isFinite
  | case5 x exponent hlarge hzero hpos =>
      rw [scale?, if_neg hlarge, if_neg hzero, if_pos hpos] at h
      cases h
  | case6 x exponent hlarge hzero hneg ih =>
      rw [scale?, if_neg hlarge, if_neg hzero, if_neg hneg] at h
      exact ih (hx.div (one_le_ofDecimal (by decide))) h

/-- A number that is read is finite. -/
theorem isFinite_of_binary64? {literal : List Char} {x : Binary64}
    (h : binary64? literal = some x) : x.isFinite = true := by
  simp only [binary64?, Option.bind_eq_bind, Option.bind_eq_some_iff, Option.pure_def,
    Option.some.injEq] at h
  obtain ⟨numeral, -, magnitude, hscale, rfl⟩ := h
  have hwhole := leadingDigits_le numeral.whole 0 (Nat.zero_le largestWord)
  have hsignificand := leadingDigits_le numeral.fraction 0 hwhole
  exact isFinite_of_scale? (Magnitude.rank_ofNat_mono hsignificand) hscale

theorem isSome_scale?_zero {x : Magnitude} (hx : IsWordSized x) : (scale? x 0).isSome = true := by
  have hone : (Magnitude.ofDecimal 1 0).numerator = (Magnitude.ofDecimal 1 0).denominator := by
    decide +kernel
  have hdiv := (hx.div (one_le_ofDecimal (Nat.zero_le 308))).isFinite
  have hmul : x.mul (.ofDecimal 1 0) = x.div (.ofDecimal 1 0) := by
    rw [Magnitude.mul, Magnitude.div, hone]
  have hfinite : (x.mul (.ofDecimal 1 0)).isFinite = true := hmul ▸ hdiv
  rw [scale?, if_pos (by decide)]
  simp [hfinite]

theorem read?_toDigits (n : Nat) :
    Numeral.read? (Nat.toDigits 10 n) = some ⟨false, Nat.toDigits 10 n, [], 0⟩ := by
  have hdigits := isWhole_toDigits n
  have hunsigned := hdigits.splitSign_append false []
  simp only [Bool.false_eq_true, if_false, List.nil_append, List.append_nil] at hunsigned
  obtain ⟨htake, hdrop⟩ := takeWhile_append hdigits.isDigit [] rfl
  rw [List.append_nil] at htake hdrop
  simp only [Numeral.read?, hunsigned, htake, hdrop, hdigits.ne_nil, false_and, if_false]

/-- A count has a value as a number too. -/
theorem isSome_binary64?_toDigits {n : Nat} (h : n ≤ largestWord) :
    (binary64? (Nat.toDigits 10 n)).isSome = true := by
  have hvalue : Nat.ofDigitChars 10 (Nat.toDigits 10 n) 0 = n := Nat.ofDigitChars_ten_toDigits
  have hdigits := leadingDigits_eq (Nat.toDigits 10 n) 0 0 (hvalue.symm ▸ h)
  rw [hvalue] at hdigits
  obtain ⟨magnitude, hscale⟩ := Option.isSome_iff_exists.1
    (isSome_scale?_zero (Magnitude.rank_ofNat_mono h))
  simp [binary64?, read?_toDigits, hdigits, leadingDigits, hscale]

end Json

/-- A finite number reads back from its digits. -/
def Binary64.ReadsBack (x : Binary64) : Prop :=
  x.isFinite = true → Json.binary64? (Json.numberStyle.lay x) = some x

instance (x : Binary64) : Decidable x.ReadsBack := inferInstanceAs (Decidable (_ → _))

/-- Not every number does: the sixteen digits of one eleventh make a significand of more than 53
bits, which is rounded before it is scaled. -/
example : ¬(Binary64.quotient 1 11).ReadsBack := by decide +kernel

end ModuleRecovery
