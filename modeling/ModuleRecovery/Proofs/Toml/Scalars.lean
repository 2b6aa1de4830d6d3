import ModuleRecovery.Proofs.Json.Numbers
import ModuleRecovery.Toml.Settings

/-!
Values that are written on a line of a settings document are read back. What is written for a number
has a point, so it is no integer; none of its characters makes it a date, a time or a number in
another base; and its digits stand for the same decimal as the fewest digits of the number. Main
statements: every number, also one that is infinite or none at all, every count of 63 bits and both
truth values are read as they were written.
-/

namespace ModuleRecovery

open Json (IsWhole isWhole_toDigits isWhole_zero)

namespace Toml

variable {literal digits whole fraction rest : List Char} {c d : Char}

/-! ## Digits -/

/-- A character at which digits end. -/
structure EndsDigits (d : Char) : Prop where
  isDigit_eq : d.isDigit = false
  ne_underscore : d ≠ '_'

theorem endsDigits_newline : EndsDigits '\n' := ⟨rfl, by decide⟩

theorem endsDigits_point : EndsDigits '.' := ⟨rfl, by decide⟩

private theorem scanDigits?_go (hdigits : ∀ c ∈ digits, c.isDigit = true) (hd : EndsDigits d)
    (rest : List Char) :
    scanDigits?.go Char.isDigit (digits ++ d :: rest) = some (digits, d :: rest) := by
  induction digits with
  | nil =>
      rw [List.nil_append, scanDigits?.go, hd.isDigit_eq]
      · rfl
      · exact fun _ _ h => absurd h hd.ne_underscore
      · exact fun h => absurd h hd.ne_underscore
  | cons c digits ih =>
      obtain ⟨hc, hdigits⟩ := List.forall_mem_cons.1 hdigits
      have hscore : c ≠ '_' := ne_of_kind hc rfl
      rw [List.cons_append, scanDigits?.go, if_pos hc, ih hdigits]
      · rfl
      · exact fun _ _ h => absurd h hscore
      · exact fun h => absurd h hscore

theorem scanDigits?_append (hdigits : ∀ c ∈ digits, c.isDigit = true) (hne : digits ≠ [])
    (hd : EndsDigits d) (rest : List Char) :
    scanDigits? Char.isDigit (digits ++ d :: rest) = some (digits, d :: rest) := by
  rw [scanDigits?, scanDigits?_go hdigits hd rest]
  · simp [hne]
  · obtain ⟨c, digits, rfl⟩ := List.exists_cons_of_ne_nil hne
    intro tail htext
    have hscore : c ≠ '_' := ne_of_kind (hdigits c List.mem_cons_self) rfl
    exact hscore (List.cons.inj htext).1

theorem scanWhole?_append (hwhole : IsWhole whole) (hd : EndsDigits d) (rest : List Char) :
    scanWhole? (whole ++ d :: rest) = some (whole, d :: rest) := by
  by_cases hzero : whole = ['0']
  · subst hzero
    rfl
  · rw [scanWhole?, scanDigits?_append hwhole.isDigit hwhole.ne_nil hd rest]
    obtain ⟨c, digits, rfl, -⟩ := hwhole.exists_cons
    intro tail htext
    obtain ⟨rfl, -⟩ := List.cons.inj htext
    exact hzero (hwhole.eq_zero rfl)

/-! ## No dates and no other bases -/

/-- The characters of numbers, those with a name included. A minus sign may stand in front. -/
def isNumberChar (c : Char) : Bool :=
  c.isDigit || c == '.' || c == 'i' || c == 'n' || c == 'f' || c == 'a'

theorem isNumberChar_of_isDigit (h : c.isDigit = true) : isNumberChar c = true := by
  simp [isNumberChar, h]

theorem scanFixed?_of_not_isDigit (h : c.isDigit = false) (length : Nat) (rest : List Char) :
    scanFixed? (length + 1) (c :: rest) = none := by
  simp [scanFixed?, h]

/-- Behind the digits that a number starts with comes no other mark on its line. -/
theorem skipWord?_scanFixed? {length n : Nat} {after : List Char} {mark : Char}
    (hliteral : ∀ c ∈ literal, isNumberChar c = true) (hmark : isNumberChar mark = false)
    (hend : mark ≠ '\n') (h : scanFixed? length (literal ++ '\n' :: rest) = some (n, after)) :
    skipWord? [mark] after = none := by
  simp only [scanFixed?] at h
  split at h
  · rename_i hdigits
    obtain ⟨hlength, hall⟩ := hdigits
    cases h
    -- The line end is no digit, so it does not stand among the digits.
    have hle : length ≤ literal.length := by
      by_contra hlt
      have hmem : '\n' ∈ (literal ++ '\n' :: rest).take length := by
        obtain ⟨more, hmore⟩ : ∃ more, length = literal.length + (more + 1) :=
          ⟨length - literal.length - 1, by omega⟩
        simp [hmore, List.take_append]
      exact absurd (List.all_eq_true.1 hall _ hmem) (by decide)
    rw [List.drop_append_of_le_length hle]
    cases hrest : literal.drop length with
    | nil => exact if_neg hend
    | cons c more =>
        have hc : isNumberChar c = true :=
          hliteral c (List.mem_of_mem_drop (hrest ▸ List.mem_cons_self))
        exact if_neg (ne_of_kind hc hmark).symm
  · cases h

/-- A number on its line does not start like one in another base. -/
theorem ne_based (hliteral : ∀ c ∈ literal, isNumberChar c = true) (negative : Bool)
    (hd : isNumberChar d = false) (hend : d ≠ '\n') (more : List Char) :
    (if negative then ['-'] else []) ++ literal ++ '\n' :: rest ≠ '0' :: d :: more := by
  intro htext
  cases negative with
  | true => exact absurd (List.cons.inj htext).1 (by decide)
  | false =>
      match literal, hliteral, htext with
      | [], _, htext => exact absurd (List.cons.inj htext).1 (by decide)
      | [_], _, htext => exact hend (List.cons.inj (List.cons.inj htext).2).1.symm
      | _ :: c :: _, hliteral, htext =>
          have hc : isNumberChar c = true := hliteral c (by simp)
          exact ne_of_kind hc hd (List.cons.inj (List.cons.inj htext).2).1

/-- A number on its line is neither a date nor a time, and written in no other base. -/
theorem scanDigitItem?_eq (hliteral : ∀ c ∈ literal, isNumberChar c = true) (negative : Bool)
    (rest : List Char) :
    let text := (if negative then ['-'] else []) ++ literal ++ '\n' :: rest
    scanDigitItem? text = (scanNamed? text).or (scanDecimal? text) := by
  intro text
  have hfixed {length n : Nat} {after : List Char} (mark : Char)
      (hmark : isNumberChar mark = false) (hend : mark ≠ '\n')
      (h : scanFixed? (length + 1) text = some (n, after)) : skipWord? [mark] after = none := by
    cases negative with
    | true =>
        have hnone : scanFixed? (length + 1) text = none := scanFixed?_of_not_isDigit rfl length _
        rw [hnone] at h
        cases h
    | false => exact skipWord?_scanFixed? hliteral hmark hend h
  have hyear : scanYear? text = none := by
    cases h : scanFixed? 4 text with
    | none => simp [scanYear?, h]
    | some found => simp [scanYear?, h, hfixed '-' rfl (by decide) h]
  have hhours : skipHours? text = none := by
    cases h : scanFixed? 2 text with
    | none => simp [skipHours?, scanBetween?, h]
    | some found =>
        have hmark := hfixed ':' rfl (by decide) h
        simp only [skipHours?, scanBetween?, h]
        split
        · exact hmark
        · rfl
  have hbased {d : Char} (hd : isNumberChar d = false) (hend : d ≠ '\n') (more : List Char) :
      text ≠ '0' :: d :: more := ne_based hliteral negative hd hend more
  simp only [scanDigitItem?, hyear, hhours]
  rw [scanNumber?]
  · exact hbased rfl (by decide)
  · exact hbased rfl (by decide)
  · exact hbased rfl (by decide)

/-! ## Decimal numbers -/

theorem scanNamed?_append (negative : Bool) (hwhole : IsWhole whole) (rest : List Char) :
    scanNamed? ((if negative then ['-'] else []) ++ (whole ++ rest)) = none := by
  have hsplit := hwhole.splitSign_append negative rest
  obtain ⟨c, digits, rfl, hc⟩ := hwhole.exists_cons
  have hi : 'i' ≠ c := (ne_of_kind hc rfl).symm
  have hn : 'n' ≠ c := (ne_of_kind hc rfl).symm
  rw [scanNamed?, hsplit]
  simp only [List.cons_append, skipWord?, if_neg hi, if_neg hn]

/-- A number with a point that ends the line. -/
theorem scanDecimal?_point (negative : Bool) (hwhole : IsWhole whole)
    (hfraction : ∀ c ∈ fraction, c.isDigit = true) (hne : fraction ≠ []) (rest : List Char) :
    scanDecimal? ((if negative then ['-'] else []) ++ (whole ++ '.' :: fraction) ++ '\n' :: rest) =
      (float? ⟨negative, whole, fraction, 0⟩).map (·, '\n' :: rest) := by
  have hsplit := hwhole.splitSign_append negative ('.' :: (fraction ++ '\n' :: rest))
  have hscanWhole := scanWhole?_append hwhole endsDigits_point (fraction ++ '\n' :: rest)
  have hscanFraction := scanDigits?_append hfraction hne endsDigits_newline rest
  simp only [List.append_assoc, List.cons_append, scanDecimal?, hsplit, hscanWhole]
  simp [hscanFraction, Option.map_eq_bind]

/-- A number without a point that ends the line. -/
theorem scanDecimal?_whole (hwhole : IsWhole whole) (rest : List Char) :
    scanDecimal? (whole ++ '\n' :: rest) =
      (integer? (Nat.ofDigitChars 10 whole 0)).map (·, '\n' :: rest) := by
  have hsplit : Numeral.splitSign (whole ++ '\n' :: rest) = (false, whole ++ '\n' :: rest) :=
    hwhole.splitSign_append false _
  have hscanWhole := scanWhole?_append hwhole endsDigits_newline rest
  simp [scanDecimal?, hsplit, hscanWhole, Option.map_eq_bind]

/-! ## Written values -/

/-- Wherever the text stands before a line end, it is read as the value. No blank is in front. -/
def ReadsAs (literal : List Char) (item : Item) : Prop :=
  ∀ rest, skipBlanks (literal ++ '\n' :: rest) = literal ++ '\n' :: rest ∧
    scanItem nestingLimit (literal ++ '\n' :: rest) = .ok (item, '\n' :: rest)

/-- What neither a bracket, nor a quote, nor the letter of a truth value begins. -/
theorem scanItem_eq_scanDigitItem? (hc : c ∉ ['[', '{', '"', '\'', 't', 'f']) (rest : List Char) :
    scanItem nestingLimit (c :: rest) =
      expect (c :: rest) "a value" (scanDigitItem? (c :: rest)) := by
  simp only [List.mem_cons, List.not_mem_nil, or_false, not_or] at hc
  obtain ⟨hbracket, hbrace, hdouble, hsingle, ht, hf⟩ := hc
  rw [nestingLimit, scanItem, if_neg hbracket, if_neg hbrace, scanScalar]
  · exact fun _ h => hdouble (List.cons.inj h).1
  · exact fun _ h => hsingle (List.cons.inj h).1
  · exact fun _ h => ht (List.cons.inj h).1
  · exact fun _ h => hf (List.cons.inj h).1

/-- A digit, a minus sign or the first letter of a number with a name. -/
def startsNumber (c : Char) : Bool := c.isDigit || c == '-' || c == 'i' || c == 'n'

theorem readsAs_of_scanDigitItem? {item : Item} (hc : startsNumber c = true)
    (h : ∀ rest, scanDigitItem? (c :: literal ++ '\n' :: rest) = some (item, '\n' :: rest)) :
    ReadsAs (c :: literal) item := by
  have hne {d : Char} (hd : startsNumber d = false) : c ≠ d := ne_of_kind hc hd
  intro rest
  constructor
  · have hblank : isBlank c = false := by
      simp [isBlank, hne (d := ' ') rfl, hne (d := '\t') rfl]
    exact List.dropWhile_cons_of_neg (by simp [hblank])
  · have hother : c ∉ ['[', '{', '"', '\'', 't', 'f'] := by
      simp only [List.mem_cons, List.not_mem_nil, or_false, not_or]
      exact ⟨hne rfl, hne rfl, hne rfl, hne rfl, hne rfl, hne rfl⟩
    have hscan := h rest
    rw [List.cons_append] at hscan ⊢
    rw [scanItem_eq_scanDigitItem? hother, hscan]
    rfl

theorem readsAs_truth (b : Bool) : ReadsAs (if b then "true" else "false").toList (.boolean b) := by
  intro rest
  cases b <;> exact ⟨rfl, rfl⟩

theorem readsAs_count {n : Nat} (h : n ≤ Settings.largestInteger) :
    ReadsAs (Nat.toDigits 10 n) (.integer n) := by
  have hwhole := isWhole_toDigits n
  have hfits : integer? (n : Int) = some (.integer n) := by
    have hle : (n : Int) ≤ 0x7fffffffffffffff := by exact_mod_cast h
    exact if_pos ⟨by omega, hle⟩
  have hscan (rest : List Char) :
      scanDigitItem? (Nat.toDigits 10 n ++ '\n' :: rest) = some (.integer n, '\n' :: rest) := by
    have hliteral : ∀ c ∈ Nat.toDigits 10 n, isNumberChar c = true :=
      fun c hc => isNumberChar_of_isDigit (hwhole.isDigit c hc)
    have hnamed : scanNamed? (Nat.toDigits 10 n ++ '\n' :: rest) = none :=
      scanNamed?_append false hwhole _
    have hitem := scanDigitItem?_eq hliteral false rest
    simp only [Bool.false_eq_true, if_false, List.nil_append] at hitem
    rw [hitem, hnamed, scanDecimal?_whole hwhole, Nat.ofDigitChars_ten_toDigits, hfits]
    rfl
  obtain ⟨c, digits, hdigits, hc⟩ := hwhole.exists_cons
  rw [hdigits] at hscan ⊢
  exact readsAs_of_scanDigitItem? (by simp [startsNumber, hc]) hscan

/-- A finite magnitude is written as digits with a point among them, which stand for it. -/
theorem exists_layMagnitude {x : Magnitude} (hx : x.isFinite = true) :
    ∃ whole fraction, Settings.numberStyle.layMagnitude x = whole ++ '.' :: fraction ∧
      IsWhole whole ∧ (∀ c ∈ fraction, c.isDigit = true) ∧ fraction ≠ [] ∧
      Decimal.magnitude ⟨Nat.ofDigitChars 10 (whole ++ fraction) 0, -fraction.length⟩ = x := by
  by_cases hrank : x.rank = 0
  · have hzero : x = .zero := Magnitude.eq_of_rank_eq hrank
    subst hzero
    exact ⟨['0'], ['0'], rfl, isWhole_zero, isWhole_zero.isDigit, isWhole_zero.ne_nil, rfl⟩
  · let d := Decimal.shortest Settings.numberStyle.tie x
    have hd : 0 < d.digits := Decimal.digits_shortest_pos _ (Nat.pos_of_ne_zero hrank)
    obtain ⟨whole, fraction, hlay, hwhole, hfraction, hne, hvalue⟩ :=
      Json.exists_layPlain (rfl : Settings.numberStyle.pointZero = true) hd d.exponent
    refine ⟨whole, fraction, ?_, hwhole, hfraction, hne, ?_⟩
    · rw [← hlay, NumberStyle.layMagnitude, if_neg hrank]
      rfl
    · exact (Decimal.magnitude_eq_of_value hvalue).trans (Decimal.magnitude_shortest _ hx)

theorem readsAs_finite (negative : Bool) {x : Magnitude} (hx : x.isFinite = true) :
    ReadsAs ((if negative then ['-'] else []) ++ Settings.numberStyle.layMagnitude x)
      (.float (.signed negative x)) := by
  obtain ⟨whole, fraction, hlay, hwhole, hfraction, hne, hmagnitude⟩ := exists_layMagnitude hx
  obtain ⟨c, digits, hdigits, hc⟩ := hwhole.exists_cons
  have hfloat : float? ⟨negative, whole, fraction, 0⟩ = some (.float (.signed negative x)) := by
    have hvalue : Numeral.value ⟨negative, whole, fraction, 0⟩ = .signed negative x := by
      rw [← hmagnitude, Numeral.value, Int.zero_sub]
      rfl
    have hbounded : Binary64.signed negative x ≠ .signed false .infinity := by
      intro heq
      cases heq
      cases hx
    simp only [float?, hvalue, if_neg hbounded]
  have hscan (rest : List Char) :
      scanDigitItem? ((if negative then ['-'] else []) ++ (whole ++ '.' :: fraction) ++
        '\n' :: rest) = some (.float (.signed negative x), '\n' :: rest) := by
    have hliteral : ∀ c ∈ whole ++ '.' :: fraction, isNumberChar c = true := by
      intro c hc
      rcases List.mem_append.1 hc with hwholeMem | hrest
      · exact isNumberChar_of_isDigit (hwhole.isDigit c hwholeMem)
      · rcases List.mem_cons.1 hrest with rfl | hfractionMem
        · rfl
        · exact isNumberChar_of_isDigit (hfraction c hfractionMem)
    have hnamed : scanNamed? ((if negative then ['-'] else []) ++ (whole ++ '.' :: fraction) ++
        '\n' :: rest) = none := by
      rw [List.append_assoc, List.append_assoc]
      exact scanNamed?_append negative hwhole _
    rw [scanDigitItem?_eq hliteral, hnamed, scanDecimal?_point negative hwhole hfraction hne,
      hfloat]
    rfl
  rw [hlay]
  cases negative with
  | true => exact readsAs_of_scanDigitItem? rfl hscan
  | false =>
      rw [hdigits] at hscan ⊢
      exact readsAs_of_scanDigitItem? (by simp [startsNumber, hc]) hscan

/-- Every number is read as it was written, also one that no settings may have. -/
theorem readsAs_number (x : Binary64) : ReadsAs (Settings.numberStyle.lay x) (.float x) := by
  cases x with
  | nan => exact readsAs_of_scanDigitItem? rfl fun rest => rfl
  | signed negative magnitude =>
      by_cases hfinite : magnitude.isFinite = true
      · rw [NumberStyle.lay, if_pos hfinite]
        exact readsAs_finite negative hfinite
      · have hinfinity : magnitude = .infinity := by
          have hle : Magnitude.infinityRank ≤ magnitude.rank := by
            simpa [Magnitude.isFinite] using hfinite
          exact Magnitude.eq_of_rank_eq (le_antisymm magnitude.rank_le hle)
        subst hinfinity
        cases negative with
        | true => exact readsAs_of_scanDigitItem? rfl fun rest => rfl
        | false => exact readsAs_of_scanDigitItem? rfl fun rest => rfl

end Toml

end ModuleRecovery
