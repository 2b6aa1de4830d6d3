import ModuleRecovery.Decimal
import ModuleRecovery.Proofs.Rounding

/-!
Decimal numbers and the magnitudes nearest to them. A ratio that is a number of the format rounds
to it, however it is written, and the bounds beyond which no power of ten is computed change
nothing. Main statements: a decimal that stands for the same number as a finite magnitude has that
magnitude, and so do the fewest digits of the magnitude.
-/

namespace ModuleRecovery

namespace Magnitude

theorem eq_of_rank_eq {x y : Magnitude} (h : x.rank = y.rank) : x = y := by
  cases x
  cases y
  cases h
  rfl

/-- Equal ratios round to the same magnitude. -/
theorem ofRatio_eq_of_div_eq {num den num' den' : Nat} (hden : 0 < den) (hden' : 0 < den')
    (h : (num : ℚ) / den = (num' : ℚ) / den') : ofRatio num den = ofRatio num' den' := by
  rw [div_eq_div_iff (by exact_mod_cast hden.ne') (by exact_mod_cast hden'.ne')] at h
  have hcross : num * den' = num' * den := by exact_mod_cast h
  apply eq_of_rank_eq
  exact le_antisymm (ofRatio_mono hden hden' hcross.le) (ofRatio_mono hden' hden hcross.ge)

/-- A significand takes 53 bits, and fewer only at the least exponent. -/
theorem significand_exponent_bounds (x : Magnitude) :
    x.significand < 2 ^ 53 ∧ -1074 ≤ x.exponent ∧
      (x.exponent = -1074 ∨ 2 ^ 52 ≤ x.significand) := by
  rcases Nat.lt_or_ge x.rank (2 ^ 53) with hsmall | hlarge
  · rw [significand_eq, exponent_eq, if_pos hsmall, if_pos hsmall]
    exact ⟨hsmall, le_rfl, Or.inl rfl⟩
  · obtain ⟨hlow, hhigh⟩ := significand_bounds hlarge
    refine ⟨hhigh, ?_, Or.inr hlow⟩
    rw [exponent_eq, if_neg hlarge.not_gt]
    omega

/-- The last place of a magnitude is that of its significand. -/
theorem lastPlace_eq {x : Magnitude} (h : 0 < x.rank) :
    lastPlace x.numerator x.denominator = x.exponent := by
  obtain ⟨hhigh, hleast, hlow⟩ := x.significand_exponent_bounds
  obtain ⟨hbelow, habove⟩ := binade_spec (numerator_pos h) x.denominator_pos
  rw [← value_eq_div, value] at hbelow habove
  have hpow : (0 : ℚ) < 2 ^ x.exponent := by positivity
  have htwo : (2 : ℚ) ≠ 0 := by norm_num
  have hupper : binade x.numerator x.denominator < 53 + x.exponent := by
    rw [← zpow_lt_zpow_iff_right₀ (by norm_num : (1 : ℚ) < 2)]
    calc
      (2 : ℚ) ^ binade x.numerator x.denominator ≤ x.significand * 2 ^ x.exponent := hbelow
      _ < (2 ^ 53 : Nat) * 2 ^ x.exponent := by
            gcongr
      _ = 2 ^ (53 + x.exponent) := by
            rw [zpow_add₀ htwo]
            norm_num
  rw [lastPlace]
  rcases hlow with hexponent | hlow
  · omega
  · have hlower : 52 + x.exponent < binade x.numerator x.denominator + 1 := by
      rw [← zpow_lt_zpow_iff_right₀ (by norm_num : (1 : ℚ) < 2)]
      calc
        (2 : ℚ) ^ (52 + x.exponent) = (2 ^ 52 : Nat) * 2 ^ x.exponent := by
              rw [zpow_add₀ htwo]
              norm_num
        _ ≤ x.significand * 2 ^ x.exponent := by
              gcongr
        _ < 2 ^ (binade x.numerator x.denominator + 1) := habove
    omega

/-- A finite magnitude, written as a fraction, rounds to itself. -/
theorem ofRatio_numerator_denominator {x : Magnitude} (h : x.isFinite = true) :
    ofRatio x.numerator x.denominator = x := by
  have hfinite : x.rank < infinityRank := of_decide_eq_true h
  apply eq_of_rank_eq
  rcases Nat.eq_zero_or_pos x.rank with hzero | hpos
  · have hnumerator : x.numerator = 0 := by
      rw [numerator, significand_eq, if_pos (by omega), hzero, Nat.zero_mul]
    rw [ofRatio, if_pos hnumerator, hzero]
    rfl
  have hratio : ((x.numerator * Nat.pow 2 (-x.exponent).toNat : Nat) : ℚ) /
      (x.denominator * Nat.pow 2 x.exponent.toNat : Nat) = x.significand := by
    rw [scaled_div, ← value_eq_div, value]
    exact mul_div_cancel_right₀ _ (by positivity)
  have hscaled := scaled_pos x.denominator_pos x.exponent
  have hplaces : places x.numerator x.denominator = x.significand := by
    rw [places, lastPlace_eq hpos]
    exact le_antisymm (roundHalfEven_le hscaled hratio.le) (le_roundHalfEven hscaled hratio.ge)
  have hrank : (x.exponent + 1074).toNat * 2 ^ 52 + x.significand = x.rank := by
    rw [exponent_eq, significand_eq]
    rcases Nat.lt_or_ge x.rank (2 ^ 53) with hsmall | hlarge
    · rw [if_pos hsmall, if_pos hsmall]
      omega
    · rw [if_neg hlarge.not_gt, if_neg hlarge.not_gt]
      omega
  have hpow : Nat.pow 2 52 = 2 ^ 52 := rfl
  rw [rank_ofRatio (numerator_pos hpos), hplaces, lastPlace_eq hpos, hpow, hrank]
  exact min_eq_left hfinite.le

/-! ## Decimal numbers -/

/-- From a power of ten on that is rounded to infinity, all is infinity. -/
private theorem ofRatio_of_large {limit digits exponent : Nat}
    (hlimit : (ofRatio (Nat.pow 10 limit) 1).rank = infinityRank) (hdigits : 0 < digits)
    (h : limit ≤ exponent) : ofRatio (digits * Nat.pow 10 exponent) 1 = infinity := by
  have hle : Nat.pow 10 limit ≤ digits * Nat.pow 10 exponent :=
    (Nat.pow_le_pow_right (by decide) h).trans (Nat.le_mul_of_pos_left _ hdigits)
  have hmono := ofRatio_mono Nat.one_pos Nat.one_pos (Nat.mul_le_mul_right 1 hle)
  exact eq_of_rank_eq (le_antisymm (rank_le _) (hlimit.ge.trans hmono))

/-- Below a power of ten that is rounded to zero, all is zero. -/
private theorem ofRatio_of_small {limit digits exponent : Nat}
    (hlimit : (ofRatio 1 (Nat.pow 10 limit)).rank = 0)
    (h : digits.log2 + 1 + limit ≤ exponent) : ofRatio digits (Nat.pow 10 exponent) = zero := by
  have hten (n : Nat) : 0 < Nat.pow 10 n := Nat.pow_pos (by decide)
  have hdigits : digits ≤ 10 ^ (digits.log2 + 1) :=
    Nat.lt_log2_self.le.trans (Nat.pow_le_pow_left (by decide) _)
  have hcross : digits * Nat.pow 10 limit ≤ 1 * Nat.pow 10 exponent := by
    calc
      digits * Nat.pow 10 limit ≤ 10 ^ (digits.log2 + 1) * 10 ^ limit :=
            Nat.mul_le_mul_right _ hdigits
      _ = 10 ^ (digits.log2 + 1 + limit) := (pow_add _ _ _).symm
      _ ≤ 10 ^ exponent := Nat.pow_le_pow_right (by decide) h
      _ = 1 * Nat.pow 10 exponent := (Nat.one_mul _).symm
  have hmono := ofRatio_mono (hten exponent) (hten limit) hcross
  exact eq_of_rank_eq (Nat.le_zero.1 (hmono.trans_eq hlimit))

/-- The bounds beyond which no power of ten is computed change nothing. -/
theorem ofDecimal_eq (digits : Nat) (exponent : Int) :
    ofDecimal digits exponent =
      ofRatio (digits * Nat.pow 10 exponent.toNat) (Nat.pow 10 (-exponent).toNat) := by
  have hone : Nat.pow 10 0 = 1 := rfl
  unfold ofDecimal
  split_ifs with hzero hlarge hsmall
  · rw [hzero, Nat.zero_mul]
    rfl
  · have hdown : (-exponent).toNat = 0 := by omega
    have hlimit : (ofRatio (Nat.pow 10 310) 1).rank = infinityRank := by decide +kernel
    have hexponent : 310 ≤ exponent.toNat := by omega
    rw [hdown, hone, ofRatio_of_large hlimit (Nat.pos_of_ne_zero hzero) hexponent]
  · have hup : exponent.toNat = 0 := by omega
    have hlimit : (ofRatio 1 (Nat.pow 10 324)).rank = 0 := by decide +kernel
    have hexponent : digits.log2 + 1 + 324 ≤ (-exponent).toNat := by omega
    rw [hup, hone, Nat.mul_one, ofRatio_of_small hlimit hexponent]
  · rfl

end Magnitude

namespace Decimal

/-- The number that a decimal stands for. -/
def value (d : Decimal) : ℚ := d.digits * 10 ^ d.exponent

theorem value_eq_div (d : Decimal) :
    d.value = ((d.digits * Nat.pow 10 d.exponent.toNat : Nat) : ℚ) /
      (Nat.pow 10 (-d.exponent).toNat : Nat) := by
  rw [value, Magnitude.zpow_eq_div, ← mul_div_assoc]
  push_cast [Nat.pow_eq]
  rfl

/-- Decimals that stand for the same number have the same magnitude. -/
theorem magnitude_eq_of_value {d d' : Decimal} (h : d.value = d'.value) :
    d.magnitude = d'.magnitude := by
  have hten (n : Nat) : 0 < Nat.pow 10 n := Nat.pow_pos (by decide)
  rw [value_eq_div, value_eq_div] at h
  rw [magnitude, magnitude, Magnitude.ofDecimal_eq, Magnitude.ofDecimal_eq]
  exact Magnitude.ofRatio_eq_of_div_eq (hten _) (hten _) h

/-- A decimal that stands for a number of the format has its magnitude. -/
theorem magnitude_of_value {d : Decimal} {x : Magnitude} (hx : x.isFinite = true)
    (h : d.value = x.value) : d.magnitude = x := by
  have hten : 0 < Nat.pow 10 (-d.exponent).toNat := Nat.pow_pos (by decide)
  rw [value_eq_div, Magnitude.value_eq_div] at h
  rw [magnitude, Magnitude.ofDecimal_eq, Magnitude.ofRatio_eq_of_div_eq hten x.denominator_pos h]
  exact Magnitude.ofRatio_numerator_denominator hx

/-! ## The fewest digits -/

theorem digits_trim_pos {d : Decimal} (h : 0 < d.digits) : 0 < d.trim.digits := by
  induction d using Decimal.trim.induct with
  | case1 d hzero ih =>
      rw [trim, dif_pos hzero]
      apply ih
      show 0 < d.digits / 10
      omega
  | case2 d hzero =>
      rw [trim, dif_neg hzero]
      exact h

theorem value_trim (d : Decimal) : d.trim.value = d.value := by
  induction d using Decimal.trim.induct with
  | case1 d hzero ih =>
      have hdigits : d.digits = d.digits / 10 * 10 := by omega
      rw [trim, dif_pos hzero, ih, value, value]
      conv_rhs => rw [hdigits]
      rw [zpow_add_one₀ (by norm_num)]
      push_cast
      ring
  | case2 d hzero => rw [trim, dif_neg hzero]

theorem value_exact (x : Magnitude) : (exact x).value = x.value := by
  unfold exact
  split
  · rename_i hexponent
    have hpos : x.exponent = (x.exponent.toNat : Int) := by omega
    simp only [value, Magnitude.value, Magnitude.numerator, zpow_zero, mul_one]
    rw [hpos, zpow_natCast]
    push_cast [Nat.pow_eq, Int.toNat_natCast]
    rfl
  · rename_i hexponent
    have hneg : x.exponent = -((-x.exponent).toNat : Int) := by omega
    generalize (-x.exponent).toNat = places at hneg
    have hten : (10 : ℚ) ^ places = 5 ^ places * 2 ^ places := by
      rw [← mul_pow]
      norm_num
    simp only [value, Magnitude.value, hneg, zpow_neg, zpow_natCast, hten]
    push_cast [Nat.pow_eq]
    field_simp

theorem magnitude_of_ofLength? {tie : Tie} {x : Magnitude} {count : Nat} {d : Decimal}
    (h : ofLength? tie x count = some d) : d.magnitude = x := by
  unfold ofLength? at h
  grind

/-- A magnitude above zero has a digit that is not zero. -/
theorem digits_shortest_pos (tie : Tie) {x : Magnitude} (hx : 0 < x.rank) :
    0 < (shortest tie x).digits := by
  apply digits_trim_pos
  cases hfound : (List.range 17).findSome? fun i => ofLength? tie x (i + 1) with
  | some d =>
      obtain ⟨i, -, hd⟩ := List.exists_of_findSome?_eq_some hfound
      have hmagnitude := magnitude_of_ofLength? hd
      rw [Option.getD_some]
      apply Nat.pos_of_ne_zero
      intro hzero
      rw [← hmagnitude, magnitude, Magnitude.ofDecimal, if_pos hzero] at hx
      exact Nat.lt_irrefl 0 hx
  | none =>
      have hnumerator := Magnitude.numerator_pos hx
      have hsignificand : 0 < x.significand := Nat.pos_of_mul_pos_right hnumerator
      rw [Option.getD_none, exact]
      split
      · exact hnumerator
      · exact Nat.mul_pos hsignificand (Nat.pow_pos (by decide))

/-- The fewest digits of a finite magnitude read back to it. -/
theorem magnitude_shortest (tie : Tie) {x : Magnitude} (hx : x.isFinite = true) :
    (shortest tie x).magnitude = x := by
  refine (magnitude_eq_of_value (value_trim _)).trans ?_
  cases hfound : (List.range 17).findSome? fun i => ofLength? tie x (i + 1) with
  | some d =>
      obtain ⟨i, -, hd⟩ := List.exists_of_findSome?_eq_some hfound
      exact magnitude_of_ofLength? hd
  | none => exact magnitude_of_value hx (value_exact x)

end Decimal

end ModuleRecovery
