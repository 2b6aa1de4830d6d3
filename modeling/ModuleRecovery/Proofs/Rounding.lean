import Mathlib.Tactic
import ModuleRecovery.Binary64

/-!
Rounding and order. A greater ratio never rounds to a smaller magnitude, because a power of two
that lies between two ratios also lies between what they round to. Main statements: the quotient
of a count by another that is not smaller lies between zero and one, although both are rounded
before they are divided; it does not grow when the first gets smaller or the second greater; the
quotient of a count below `2 ^ 53` by a smaller one lies above one.
-/

namespace ModuleRecovery

/-! ## To the nearest natural -/

theorem roundHalfEven_mono {n d n' d' : Nat} (hd : 0 < d) (hd' : 0 < d')
    (h : (n : ℚ) / d ≤ (n' : ℚ) / d') : roundHalfEven n d ≤ roundHalfEven n' d' := by
  have hcross : n * d' ≤ n' * d := by
    rw [div_le_div_iff₀ (by exact_mod_cast hd) (by exact_mod_cast hd')] at h
    exact_mod_cast h
  have hn := Nat.div_add_mod n d
  have hn' := Nat.div_add_mod n' d'
  have hlow : n / d ≤ n' / d' := by
    rw [Nat.le_div_iff_mul_le hd']
    apply Nat.le_of_mul_le_mul_right _ hd
    calc
      n / d * d' * d = n / d * d * d' := Nat.mul_right_comm _ _ _
      _ ≤ n * d' := Nat.mul_le_mul_right d' (Nat.div_mul_le_self n d)
      _ ≤ n' * d := hcross
  rcases hlow.lt_or_eq with hlt | heq
  · simp only [roundHalfEven]
    split_ifs <;> omega
  · -- The whole parts are equal, so the rests are in the same order as the ratios.
    have hrest : n % d * d' ≤ n' % d' * d := by
      have hleft : n * d' = d * d' * (n / d) + n % d * d' := by
        conv_lhs => rw [← hn]
        ring
      have hright : n' * d = d * d' * (n / d) + n' % d' * d := by
        conv_lhs => rw [← hn', ← heq]
        ring
      omega
    have hlt : d < 2 * (n % d) → d' < 2 * (n' % d') := by
      intro h
      apply Nat.lt_of_mul_lt_mul_right (a := d)
      nlinarith
    have hle : d ≤ 2 * (n % d) → d' ≤ 2 * (n' % d') := by
      intro h
      apply Nat.le_of_mul_le_mul_right _ hd
      nlinarith
    simp only [roundHalfEven, heq]
    split_ifs <;> omega

theorem roundHalfEven_mul_self (k : Nat) {d : Nat} (hd : 0 < d) :
    roundHalfEven (k * d) d = k := by
  simp [roundHalfEven, hd]

theorem le_roundHalfEven {k n d : Nat} (hd : 0 < d) (h : (k : ℚ) ≤ (n : ℚ) / d) :
    k ≤ roundHalfEven n d := by
  have hd' : (d : ℚ) ≠ 0 := by exact_mod_cast hd.ne'
  have hk : ((k * d : Nat) : ℚ) / d = k := by
    push_cast
    exact mul_div_cancel_right₀ _ hd'
  have hmono := roundHalfEven_mono hd hd (hk.trans_le h)
  rwa [roundHalfEven_mul_self k hd] at hmono

theorem roundHalfEven_le {k n d : Nat} (hd : 0 < d) (h : (n : ℚ) / d ≤ k) :
    roundHalfEven n d ≤ k := by
  have hd' : (d : ℚ) ≠ 0 := by exact_mod_cast hd.ne'
  have hk : ((k * d : Nat) : ℚ) / d = k := by
    push_cast
    exact mul_div_cancel_right₀ _ hd'
  have hmono := roundHalfEven_mono hd hd (h.trans_eq hk.symm)
  rwa [roundHalfEven_mul_self k hd] at hmono

namespace Magnitude

/-! ## To the nearest magnitude -/

/-- A power with any exponent as a ratio of powers with natural ones. -/
theorem zpow_eq_div (b : ℚ) (e : Int) : b ^ e = b ^ e.toNat / b ^ (-e).toNat := by
  rcases le_total 0 e with h | h
  · have hneg : (-e).toNat = 0 := by omega
    have hpos : e = (e.toNat : Int) := by omega
    rw [hneg, pow_zero, div_one, ← zpow_natCast, ← hpos]
  · have hpos : e.toNat = 0 := by omega
    have hneg : e = -((-e).toNat : Int) := by omega
    rw [hpos, pow_zero, one_div, ← zpow_natCast, ← zpow_neg, ← hneg]

theorem scaled_pos {den : Nat} (hden : 0 < den) (e : Int) : 0 < den * Nat.pow 2 e.toNat :=
  Nat.mul_pos hden (Nat.two_pow_pos _)

/-- Scaling both sides of a ratio by a power of two. -/
theorem scaled_div (num den : Nat) (e : Int) :
    ((num * Nat.pow 2 (-e).toNat : Nat) : ℚ) / (den * Nat.pow 2 e.toNat : Nat) =
      (num : ℚ) / den / 2 ^ e := by
  rw [zpow_eq_div, div_div_div_eq]
  push_cast [Nat.pow_eq]
  rfl

theorem zpow_le_div_iff {num den : Nat} (hden : 0 < den) (e : Int) :
    (2 : ℚ) ^ e ≤ (num : ℚ) / den ↔
      den * Nat.pow 2 e.toNat ≤ num * Nat.pow 2 (-e).toNat := by
  have hpow : (0 : ℚ) < 2 ^ e := by positivity
  rw [← one_le_div hpow, ← scaled_div, one_le_div (by exact_mod_cast scaled_pos hden e)]
  exact Nat.cast_le

private theorem log2_spec {n : Nat} (hn : 0 < n) :
    (2 : ℚ) ^ (n.log2 : Int) ≤ n ∧ (n : ℚ) < 2 ^ ((n.log2 : Int) + 1) := by
  constructor
  · rw [zpow_natCast]
    exact_mod_cast Nat.log2_self_le hn.ne'
  · have hlt : n < 2 ^ (n.log2 + 1) := Nat.lt_log2_self
    have hcast : (2 : ℚ) ^ ((n.log2 : Int) + 1) = ((2 ^ (n.log2 + 1) : Nat) : ℚ) := by
      rw [← Nat.cast_succ, zpow_natCast]
      push_cast
      rfl
    rw [hcast]
    exact_mod_cast hlt

/-- The binade of a ratio is where it lies between powers of two. -/
theorem binade_spec {num den : Nat} (hnum : 0 < num) (hden : 0 < den) :
    (2 : ℚ) ^ binade num den ≤ (num : ℚ) / den ∧
      (num : ℚ) / den < 2 ^ (binade num den + 1) := by
  have hden' : (0 : ℚ) < den := by exact_mod_cast hden
  obtain ⟨hnlow, hnhigh⟩ := log2_spec hnum
  obtain ⟨hdlow, hdhigh⟩ := log2_spec hden
  have htwo : (2 : ℚ) ≠ 0 := by norm_num
  let d : Int := (num.log2 : Int) - den.log2
  have hlow : (2 : ℚ) ^ (d - 1) ≤ (num : ℚ) / den := by
    rw [le_div_iff₀ hden']
    calc
      (2 : ℚ) ^ (d - 1) * den ≤ 2 ^ (d - 1) * 2 ^ ((den.log2 : Int) + 1) := by gcongr
      _ = 2 ^ (num.log2 : Int) := by
            rw [← zpow_add₀ htwo]
            congr 1
            omega
      _ ≤ num := hnlow
  have hhigh : (num : ℚ) / den < 2 ^ (d + 1) := by
    rw [div_lt_iff₀ hden']
    calc
      (num : ℚ) < 2 ^ ((num.log2 : Int) + 1) := hnhigh
      _ = 2 ^ (d + 1) * 2 ^ (den.log2 : Int) := by
            rw [← zpow_add₀ htwo]
            congr 1
            omega
      _ ≤ 2 ^ (d + 1) * den := by gcongr
  have hbinade : binade num den = if (2 : ℚ) ^ d ≤ (num : ℚ) / den then d else d - 1 := by
    simp only [binade, zpow_le_div_iff hden]
    rfl
  rw [hbinade]
  split_ifs with hd
  · exact ⟨hd, hhigh⟩
  · exact ⟨hlow, by simpa using hd⟩

theorem binade_mono {num den num' den' : Nat} (hnum : 0 < num) (hden : 0 < den)
    (hnum' : 0 < num') (hden' : 0 < den') (h : (num : ℚ) / den ≤ (num' : ℚ) / den') :
    binade num den ≤ binade num' den' := by
  have hlow := (binade_spec hnum hden).1
  have hhigh := (binade_spec hnum' hden').2
  have hlt := (hlow.trans h).trans_lt hhigh
  rw [zpow_lt_zpow_iff_right₀ (by norm_num)] at hlt
  omega

/-- The exponent of the last place that a ratio is rounded at. -/
def lastPlace (num den : Nat) : Int := max (binade num den - 52) (-1074)

/-- A ratio in units of its last place, rounded. -/
def places (num den : Nat) : Nat :=
  roundHalfEven (num * Nat.pow 2 (-lastPlace num den).toNat)
    (den * Nat.pow 2 (lastPlace num den).toNat)

theorem rank_ofRatio {num den : Nat} (hnum : 0 < num) :
    (ofRatio num den).rank =
      min ((lastPlace num den + 1074).toNat * Nat.pow 2 52 + places num den) infinityRank := by
  simp [ofRatio, hnum.ne', ofRank, lastPlace, places]

/-- Above the least last place a ratio fills its 53 places; it never exceeds them. -/
theorem places_bounds {num den : Nat} (hnum : 0 < num) (hden : 0 < den) :
    places num den ≤ 2 ^ 53 ∧ (-1074 < lastPlace num den → 2 ^ 52 ≤ places num den) := by
  have hpow : (0 : ℚ) < 2 ^ lastPlace num den := by positivity
  have htwo : (2 : ℚ) ≠ 0 := by norm_num
  have hscaled := scaled_pos hden (lastPlace num den)
  obtain ⟨hlow, hhigh⟩ := binade_spec hnum hden
  constructor
  · apply roundHalfEven_le hscaled
    rw [scaled_div, div_le_iff₀ hpow]
    have hle : binade num den + 1 ≤ 53 + lastPlace num den := by
      simp only [lastPlace]
      omega
    calc
      (num : ℚ) / den ≤ 2 ^ (binade num den + 1) := hhigh.le
      _ ≤ 2 ^ (53 + lastPlace num den) := zpow_le_zpow_right₀ (by norm_num) hle
      _ = ((2 ^ 53 : Nat) : ℚ) * 2 ^ lastPlace num den := by
            rw [zpow_add₀ htwo]
            norm_num
  · intro hlast
    apply le_roundHalfEven hscaled
    rw [scaled_div, le_div_iff₀ hpow]
    have heq : 52 + lastPlace num den = binade num den := by
      simp only [lastPlace] at hlast ⊢
      omega
    calc
      ((2 ^ 52 : Nat) : ℚ) * 2 ^ lastPlace num den = 2 ^ (52 + lastPlace num den) := by
            rw [zpow_add₀ htwo]
            norm_num
      _ = 2 ^ binade num den := by rw [heq]
      _ ≤ (num : ℚ) / den := hlow

/-- A greater ratio never rounds to a smaller magnitude. -/
theorem ofRatio_mono {num den num' den' : Nat} (hden : 0 < den) (hden' : 0 < den')
    (h : num * den' ≤ num' * den) : (ofRatio num den).rank ≤ (ofRatio num' den').rank := by
  rcases Nat.eq_zero_or_pos num with rfl | hnum
  · simp [ofRatio, zero]
  have hnum' : 0 < num' := Nat.pos_of_mul_pos_right ((Nat.mul_pos hnum hden').trans_le h)
  have hratio : (num : ℚ) / den ≤ (num' : ℚ) / den' := by
    rw [div_le_div_iff₀ (by exact_mod_cast hden) (by exact_mod_cast hden')]
    exact_mod_cast h
  have hbinade := binade_mono hnum hden hnum' hden' hratio
  have hlast : lastPlace num den ≤ lastPlace num' den' := by
    simp only [lastPlace]
    omega
  have hleast : -1074 ≤ lastPlace num den := le_max_right _ _
  have hpow : Nat.pow 2 52 = 2 ^ 52 := rfl
  rw [rank_ofRatio hnum, rank_ofRatio hnum', hpow]
  apply min_le_min_right
  rcases hlast.lt_or_eq with hlt | heq
  · have hhigh := (places_bounds hnum hden).1
    have hlow := (places_bounds hnum' hden').2 (by omega)
    omega
  · have hplaces : places num den ≤ places num' den' := by
      rw [places, places, heq]
      apply roundHalfEven_mono (scaled_pos hden _) (scaled_pos hden' _)
      rw [scaled_div, scaled_div]
      gcongr
    rw [heq]
    omega

/-! ## Values -/

/-- The number that a finite magnitude stands for. -/
def value (x : Magnitude) : ℚ := x.significand * 2 ^ x.exponent

theorem value_eq_div (x : Magnitude) : x.value = (x.numerator : ℚ) / x.denominator := by
  rw [value, zpow_eq_div, numerator, denominator, ← mul_div_assoc]
  push_cast [Nat.pow_eq]
  rfl

private theorem mul_zpow_le {s s' : Nat} {e e' : Int} (hs : s ≤ 2 ^ 53) (hs' : 2 ^ 52 ≤ s')
    (he : e < e') : (s : ℚ) * 2 ^ e ≤ s' * 2 ^ e' := by
  have hs53 : (s : ℚ) ≤ 2 ^ 53 := by exact_mod_cast hs
  have hs52 : (2 : ℚ) ^ 52 ≤ s' := by exact_mod_cast hs'
  calc
    (s : ℚ) * 2 ^ e ≤ 2 ^ 53 * 2 ^ e := by gcongr
    _ = 2 ^ 52 * 2 ^ (e + 1) := by
          rw [zpow_add₀ (by norm_num), zpow_one]
          ring
    _ ≤ s' * 2 ^ e' := by
          gcongr
          · norm_num
          · omega

theorem significand_eq (x : Magnitude) :
    x.significand = if x.rank < 2 ^ 53 then x.rank else 2 ^ 52 + x.rank % 2 ^ 52 := rfl

theorem exponent_eq (x : Magnitude) :
    x.exponent = if x.rank < 2 ^ 53 then -1074 else ((x.rank / 2 ^ 52 : Nat) : Int) - 1075 := rfl

theorem significand_bounds {x : Magnitude} (h : 2 ^ 53 ≤ x.rank) :
    2 ^ 52 ≤ x.significand ∧ x.significand < 2 ^ 53 := by
  have hrest : x.rank % 2 ^ 52 < 2 ^ 52 := Nat.mod_lt _ (by norm_num)
  rw [significand_eq, if_neg h.not_gt]
  omega

/-- Ranks are in the order of the numbers they stand for. -/
theorem value_mono {x y : Magnitude} (h : x.rank ≤ y.rank) : x.value ≤ y.value := by
  have hx := x.exponent_eq
  have hy := y.exponent_eq
  rcases Nat.lt_or_ge y.rank (2 ^ 53) with hysmall | hylarge
  · have hxsmall : x.rank < 2 ^ 53 := h.trans_lt hysmall
    simp only [value, exponent_eq, significand_eq, hxsmall, hysmall, if_true]
    gcongr
  · have hyplaces := significand_bounds hylarge
    rw [if_neg hylarge.not_gt] at hy
    rcases Nat.lt_or_ge x.rank (2 ^ 53) with hxsmall | hxlarge
    · rw [if_pos hxsmall] at hx
      apply mul_zpow_le _ hyplaces.1 (by omega)
      rw [significand_eq, if_pos hxsmall]
      exact hxsmall.le
    · have hxplaces := significand_bounds hxlarge
      rw [if_neg hxlarge.not_gt] at hx
      rcases (Nat.div_le_div_right (c := 2 ^ 52) h).lt_or_eq with hlt | heq
      · exact mul_zpow_le hxplaces.2.le hyplaces.1 (by omega)
      · have hle : x.significand ≤ y.significand := by
          rw [significand_eq, significand_eq, if_neg hxlarge.not_gt, if_neg hylarge.not_gt]
          omega
        rw [value, value, hx, hy, heq]
        gcongr

theorem denominator_pos (x : Magnitude) : 0 < x.denominator := Nat.two_pow_pos _

theorem numerator_pos {x : Magnitude} (h : 0 < x.rank) : 0 < x.numerator := by
  apply Nat.mul_pos _ (Nat.two_pow_pos _)
  rcases Nat.lt_or_ge x.rank (2 ^ 53) with hsmall | hlarge
  · rw [significand_eq, if_pos hsmall]
    exact h
  · have := (significand_bounds hlarge).1
    omega

theorem cross_le_of_rank_le {x y : Magnitude} (h : x.rank ≤ y.rank) :
    x.numerator * y.denominator ≤ y.numerator * x.denominator := by
  have hvalue := value_mono h
  have hx' : (0 : ℚ) < x.denominator := by exact_mod_cast x.denominator_pos
  have hy' : (0 : ℚ) < y.denominator := by exact_mod_cast y.denominator_pos
  rw [value_eq_div, value_eq_div, div_le_div_iff₀ hx' hy'] at hvalue
  exact_mod_cast hvalue

/-- The quotient of a magnitude by another that is not smaller is at most one. -/
theorem rank_div_le_one {x y : Magnitude} (h : x.rank ≤ y.rank) (hy : 0 < y.rank) :
    (x.div y).rank ≤ (ofNat 1).rank := by
  apply ofRatio_mono (Nat.mul_pos x.denominator_pos (numerator_pos hy)) Nat.one_pos
  rw [Nat.mul_one, Nat.one_mul, Nat.mul_comm x.denominator]
  exact cross_le_of_rank_le h

/-- A smaller magnitude divided by a greater one gives no greater quotient. -/
theorem rank_div_mono {x y x' y' : Magnitude} (hx : x'.rank ≤ x.rank) (hy : y.rank ≤ y'.rank)
    (hpos : 0 < y.rank) : (x'.div y').rank ≤ (x.div y).rank := by
  have hpos' : 0 < y'.rank := hpos.trans_le hy
  apply ofRatio_mono (Nat.mul_pos x'.denominator_pos (numerator_pos hpos'))
    (Nat.mul_pos x.denominator_pos (numerator_pos hpos))
  calc
    x'.numerator * y'.denominator * (x.denominator * y.numerator) =
        x'.numerator * x.denominator * (y.numerator * y'.denominator) := by ring
    _ ≤ x.numerator * x'.denominator * (y'.numerator * y.denominator) :=
          Nat.mul_le_mul (cross_le_of_rank_le hx) (cross_le_of_rank_le hy)
    _ = x.numerator * y.denominator * (x'.denominator * y'.numerator) := by ring

theorem rank_ofNat_mono {m n : Nat} (h : m ≤ n) : (ofNat m).rank ≤ (ofNat n).rank :=
  ofRatio_mono Nat.one_pos Nat.one_pos (Nat.mul_le_mul_right 1 h)

theorem rank_ofNat_pos {n : Nat} (h : 0 < n) : 0 < (ofNat n).rank := by
  have hone : 0 < (ofNat 1).rank := by decide +kernel
  exact hone.trans_le (rank_ofNat_mono h)

/-! ## Exact counts -/

private theorem binade_ofNat {n : Nat} (hn : 0 < n) : binade n 1 = n.log2 := by
  have hone : Nat.log2 1 = 0 := by decide
  have hle : 2 ^ n.log2 ≤ n := Nat.log2_self_le hn.ne'
  simpa [binade, hone] using hle

/-- A count below `2 ^ 53` is shifted to fill its 53 places, and nothing is rounded away. -/
private theorem rank_ofNat {n : Nat} (hn : 0 < n) (hlt : n < 2 ^ 53) :
    (ofNat n).rank = (n.log2 + 1022) * 2 ^ 52 + n * 2 ^ (52 - n.log2) := by
  have hlog : n.log2 < 53 := (Nat.log2_lt hn.ne').2 hlt
  have hlast : lastPlace n 1 = (n.log2 : Int) - 52 := by
    rw [lastPlace, binade_ofNat hn]
    omega
  have hplaces : places n 1 = n * 2 ^ (52 - n.log2) := by
    have hup : (-((n.log2 : Int) - 52)).toNat = 52 - n.log2 := by omega
    have hdown : ((n.log2 : Int) - 52).toNat = 0 := by omega
    rw [places, hlast, hup, hdown]
    exact (congrArg (roundHalfEven · 1) (Nat.mul_one _).symm).trans
      (roundHalfEven_mul_self _ Nat.one_pos)
  have hbound := (places_bounds hn Nat.one_pos).1
  have hshift : ((n.log2 : Int) - 52 + 1074).toNat = n.log2 + 1022 := by omega
  have hpow : Nat.pow 2 52 = 2 ^ 52 := rfl
  rw [ofNat, rank_ofRatio hn, hlast, hshift, hplaces, infinityRank, hpow, min_eq_left]
  rw [← hplaces]
  omega

/-- Counts below `2 ^ 53` are numbers of the format. -/
theorem value_ofNat {n : Nat} (hlt : n < 2 ^ 53) : (ofNat n).value = n := by
  rcases Nat.eq_zero_or_pos n with rfl | hn
  · norm_num [ofNat, ofRatio, value, significand, zero]
  have hlog : n.log2 < 53 := (Nat.log2_lt hn.ne').2 hlt
  let s := n * 2 ^ (52 - n.log2)
  have hrank : (ofNat n).rank = (n.log2 + 1022) * 2 ^ 52 + s := rank_ofNat hn hlt
  have hlow : 2 ^ 52 ≤ s := by
    calc
      2 ^ 52 = 2 ^ n.log2 * 2 ^ (52 - n.log2) := by rw [← pow_add]; congr 1; omega
      _ ≤ s := Nat.mul_le_mul_right _ (Nat.log2_self_le hn.ne')
  have hhigh : s < 2 ^ 53 := by
    calc
      s < 2 ^ (n.log2 + 1) * 2 ^ (52 - n.log2) :=
        Nat.mul_lt_mul_of_pos_right Nat.lt_log2_self (Nat.two_pow_pos _)
      _ = 2 ^ 53 := by rw [← pow_add]; congr 1; omega
  have hlarge : ¬(ofNat n).rank < 2 ^ 53 := by omega
  have hsignificand : (ofNat n).significand = s := by
    rw [significand_eq, if_neg hlarge]
    omega
  have hexponent : (ofNat n).exponent = -((52 - n.log2 : Nat) : Int) := by
    rw [exponent_eq, if_neg hlarge]
    omega
  rw [value, hsignificand, hexponent, zpow_neg, zpow_natCast]
  simp only [s]
  push_cast
  rw [mul_assoc, mul_inv_cancel₀ (by positivity), mul_one]

/-- A greater count by a smaller one is above one: there is room for a number between. -/
theorem one_lt_rank_div_ofNat {part whole : Nat} (hwhole : 0 < whole) (h : whole < part)
    (hlt : part < 2 ^ 53) : (ofNat 1).rank < ((ofNat part).div (ofNat whole)).rank := by
  have habove : (ofNat 1).rank < (ofRatio (2 ^ 53) (2 ^ 53 - 1)).rank := by decide +kernel
  apply habove.trans_le
  have hpart := value_ofNat hlt
  have hwhole' := value_ofNat (h.trans hlt)
  rw [value_eq_div, div_eq_iff (by exact_mod_cast (denominator_pos _).ne')] at hpart hwhole'
  apply ofRatio_mono (by norm_num)
    (Nat.mul_pos (denominator_pos _) (numerator_pos (rank_ofNat_pos hwhole)))
  have hnum : (ofNat part).numerator = part * (ofNat part).denominator := by exact_mod_cast hpart
  have hnum' : (ofNat whole).numerator = whole * (ofNat whole).denominator := by
    exact_mod_cast hwhole'
  have hcross : 2 ^ 53 * whole ≤ part * (2 ^ 53 - 1) := by omega
  calc
    2 ^ 53 * ((ofNat part).denominator * (ofNat whole).numerator) =
        2 ^ 53 * whole * ((ofNat part).denominator * (ofNat whole).denominator) := by
          rw [hnum']
          ring
    _ ≤ part * (2 ^ 53 - 1) * ((ofNat part).denominator * (ofNat whole).denominator) :=
          Nat.mul_le_mul_right _ hcross
    _ = (ofNat part).numerator * (ofNat whole).denominator * (2 ^ 53 - 1) := by
          rw [hnum]
          ring

end Magnitude

namespace Binary64

theorem le_iff {x y : Binary64} :
    x ≤ y ↔ ∃ a b, x.place? = some a ∧ y.place? = some b ∧ a ≤ b := by
  change le x y = true ↔ _
  cases hx : x.place? <;> cases hy : y.place? <;> simp [le, hx, hy]

theorem lt_iff {x y : Binary64} :
    x < y ↔ ∃ a b, x.place? = some a ∧ y.place? = some b ∧ a < b := by
  change lt x y = true ↔ _
  cases hx : x.place? <;> cases hy : y.place? <;> simp [lt, hx, hy]

/-- No number from zero on is below one that is at most zero, or below what is not a number. -/
theorem not_lt_of_zero_le {x y : Binary64} (hx : zero ≤ x) (hy : y ≤ zero ∨ y = nan) :
    ¬x < y := by
  intro hlt
  obtain ⟨a, b, ha, hb, hab⟩ := lt_iff.1 hlt
  obtain ⟨_, a', ⟨⟩, ha', hzero⟩ := le_iff.1 hx
  cases ha.symm.trans ha'
  rcases hy with hle | rfl
  · obtain ⟨b', _, hb', ⟨⟩, hle⟩ := le_iff.1 hle
    cases hb.symm.trans hb'
    simp only [Magnitude.zero] at hzero hle
    omega
  · cases hb

theorem zero_le_quotient (part whole : Nat) : zero ≤ quotient part whole := by
  rw [le_iff]
  exact ⟨_, _, rfl, rfl, Int.natCast_nonneg _⟩

theorem quotient_le_one {part whole : Nat} (h : part ≤ whole) (hwhole : 0 < whole) :
    quotient part whole ≤ ofNat 1 := by
  have hrank := Magnitude.rank_div_le_one (Magnitude.rank_ofNat_mono h)
    (Magnitude.rank_ofNat_pos hwhole)
  rw [le_iff]
  exact ⟨_, _, rfl, rfl, Int.ofNat_le.2 hrank⟩

theorem quotient_mono {part whole part' whole' : Nat} (hpart : part' ≤ part)
    (hwhole : whole ≤ whole') (hpos : 0 < whole) : quotient part' whole' ≤ quotient part whole := by
  have hrank := Magnitude.rank_div_mono (Magnitude.rank_ofNat_mono hpart)
    (Magnitude.rank_ofNat_mono hwhole) (Magnitude.rank_ofNat_pos hpos)
  rw [le_iff]
  exact ⟨_, _, rfl, rfl, Int.ofNat_le.2 hrank⟩

theorem lt_of_le_of_lt {x y z : Binary64} (hle : x ≤ y) (hlt : y < z) : x < z := by
  obtain ⟨a, b, ha, hb, hab⟩ := le_iff.1 hle
  obtain ⟨b', d, hb', hd, hbd⟩ := lt_iff.1 hlt
  cases hb.symm.trans hb'
  exact lt_iff.2 ⟨a, d, ha, hd, hab.trans_lt hbd⟩

theorem lt_of_lt_of_le {x y z : Binary64} (hlt : x < y) (hle : y ≤ z) : x < z := by
  obtain ⟨a, b, ha, hb, hab⟩ := lt_iff.1 hlt
  obtain ⟨b', d, hb', hd, hbd⟩ := le_iff.1 hle
  cases hb.symm.trans hb'
  exact lt_iff.2 ⟨a, d, ha, hd, hab.trans_le hbd⟩

theorem one_lt_quotient {part whole : Nat} (hwhole : 0 < whole) (h : whole < part)
    (hlt : part < 2 ^ 53) : ofNat 1 < quotient part whole := by
  rw [lt_iff]
  exact ⟨_, _, rfl, rfl, Int.ofNat_lt.2 (Magnitude.one_lt_rank_div_ofNat hwhole h hlt)⟩

end Binary64

end ModuleRecovery
