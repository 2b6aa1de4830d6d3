import Mathlib.Tactic.SplitIfs
import ModuleRecovery.Json.Printer
import ModuleRecovery.Json.Reader

/-!
Written documents are read back. The reader takes one character after the other, so what it makes
of a text is what it makes of the first part and then of the rest. A number or a word is complete
only at the next character; until then the reader settles for the phase that the value leads to.
Main statement: whatever blanks stand between its tokens, a document of escaped texts and
well-formed numbers reads back to itself.
-/

namespace ModuleRecovery.Json

/-- Every text of the document is an escaped one, and every number has the form of a number. -/
inductive IsWritten : Json → Prop where
  | null : IsWritten .null
  | bool (b : Bool) : IsWritten (.bool b)
  | number {literal : List Char} (h : isNumber literal = true) : IsWritten (.number literal)
  | string (text : String) : IsWritten (.string (escape text))
  | array {items : List Json} (h : ∀ item ∈ items, IsWritten item) : IsWritten (.array items)
  | object {fields : List (List Char × Json)}
      (hnames : ∀ field ∈ fields, ∃ text, field.1 = escape text)
      (hvalues : ∀ field ∈ fields, IsWritten field.2) : IsWritten (.object fields)

/-- Nothing but blanks stands between the tokens. -/
structure Spacing.IsBlank (s : Spacing) : Prop where
  before : ∀ depth, ∀ c ∈ s.before depth, Reader.isBlank c = true
  afterColon : ∀ c ∈ s.afterColon, Reader.isBlank c = true

theorem Spacing.isBlank_compact : Spacing.compact.IsBlank where
  before := by
    intro depth c hc
    cases hc
  afterColon := by
    intro c hc
    cases hc

theorem Spacing.isBlank_indented : Spacing.indented.IsBlank where
  before := by
    intro depth c hc
    rcases List.mem_cons.1 hc with rfl | hc
    · rfl
    · rw [List.eq_of_mem_replicate hc]
      rfl
  afterColon := by
    intro c hc
    rw [List.mem_singleton.1 hc]
    rfl

namespace Reader

variable {r : Reader} {phase next : Phase} {frames : List Frame}

/-- The reader after some characters, if all of them may stand here. -/
def run? (r : Reader) : List Char → Option Reader
  | [] => some r
  | c :: rest => (r.step c).bind fun next => run? next rest

theorem readFrom_eq (r : Reader) (text : List Char) :
    readFrom r text = (r.run? text).bind finish := by
  induction text generalizing r with
  | nil => rfl
  | cons c rest ih =>
      simp only [readFrom, run?]
      cases r.step c with
      | none => rfl
      | some next => exact ih next

theorem run?_append (r : Reader) (first rest : List Char) :
    r.run? (first ++ rest) = (r.run? first).bind fun next => next.run? rest := by
  induction first generalizing r with
  | nil => rfl
  | cons c first ih =>
      simp only [List.cons_append, run?]
      cases r.step c with
      | none => rfl
      | some next => exact ih next

/-- The token that is pending, if any, is complete: the text may end here in the given phase, and
a character that belongs to no number or word is read in this phase. -/
structure Settles (r : Reader) (phase : Phase) : Prop where
  settle_eq : r.settle = some phase
  step_eq : ∀ c, isNumeric c = false → c.isLower = false → r.step c = open? phase c

theorem settles_nothing (phase : Phase) : Settles ⟨.nothing, phase⟩ phase where
  settle_eq := rfl
  step_eq := fun _ _ _ => rfl

theorem settles_number {literal : List Char} (hnumber : isNumber literal = true)
    (hfeed : phase.feed (.leaf (.number literal)) = some next) :
    Settles ⟨.number literal.reverse, phase⟩ next := by
  have hsettle : settle ⟨.number literal.reverse, phase⟩ = some next := by
    simp [settle, hnumber, hfeed]
  refine ⟨hsettle, ?_⟩
  intro c hnumeric _
  simp [step, hnumeric, hsettle]

theorem settles_word (word : List Char) {value : Json} (hword : wordValue? word = some value)
    (hfeed : phase.feed (.leaf value) = some next) :
    Settles ⟨.word word.reverse, phase⟩ next := by
  have hsettle : settle ⟨.word word.reverse, phase⟩ = some next := by
    simp [settle, hword, hfeed]
  refine ⟨hsettle, ?_⟩
  intro c _ hlower
  simp [step, hlower, hsettle]

/-! ## Blanks -/

theorem isNumeric_of_isBlank {c : Char} (h : isBlank c = true) : isNumeric c = false := by
  simp only [isBlank, Bool.or_eq_true, beq_iff_eq] at h
  rcases h with ((rfl | rfl) | rfl) | rfl <;> rfl

theorem isLower_of_isBlank {c : Char} (h : isBlank c = true) : c.isLower = false := by
  simp only [isBlank, Bool.or_eq_true, beq_iff_eq] at h
  rcases h with ((rfl | rfl) | rfl) | rfl <;> rfl

theorem run?_blanks {blanks : List Char} (hblank : ∀ c ∈ blanks, isBlank c = true) :
    run? ⟨.nothing, phase⟩ blanks = some ⟨.nothing, phase⟩ := by
  induction blanks with
  | nil => rfl
  | cons c rest ih =>
      obtain ⟨hc, hrest⟩ := List.forall_mem_cons.1 hblank
      have hstep : step ⟨.nothing, phase⟩ c = some ⟨.nothing, phase⟩ := by simp [step, open?, hc]
      rw [run?, hstep, Option.bind_some, ih hrest]

/-- The reader still settles after some blanks. -/
theorem Settles.run?_blanks (h : r.Settles phase) {blanks : List Char}
    (hblank : ∀ c ∈ blanks, isBlank c = true) :
    ∃ r', r.run? blanks = some r' ∧ r'.Settles phase := by
  cases blanks with
  | nil => exact ⟨r, rfl, h⟩
  | cons c rest =>
      obtain ⟨hc, hrest⟩ := List.forall_mem_cons.1 hblank
      refine ⟨⟨.nothing, phase⟩, ?_, settles_nothing phase⟩
      rw [run?, h.step_eq c (isNumeric_of_isBlank hc) (isLower_of_isBlank hc)]
      simp only [open?, hc, if_true, Option.bind_some]
      exact Reader.run?_blanks hrest

/-! ## Texts -/

/-- An escaped character is read inside a text. -/
theorem run?_escapeChar (c : Char) (literal : List Char) (phase : Phase) :
    run? ⟨.text literal, phase⟩ (escapeChar c) =
      some ⟨.text ((escapeChar c).reverse ++ literal), phase⟩ := by
  unfold escapeChar
  split_ifs with hquote hbackslash hb ht hn hf hr hcontrol
  all_goals try rfl
  · have hhex : ∀ n < 16, isHexDigit (hexDigit n) = true := by decide
    have hhigh := hhex (c.toNat / 16) (by omega)
    have hlow := hhex (c.toNat % 16) (by omega)
    have hzero : isHexDigit '0' = true := rfl
    simp [run?, step, hhigh, hlow, hzero]
  · simp [run?, step, hquote, hbackslash, hcontrol]

theorem run?_escape (text : List Char) (literal : List Char) (phase : Phase) :
    run? ⟨.text literal, phase⟩ (text.flatMap escapeChar) =
      some ⟨.text ((text.flatMap escapeChar).reverse ++ literal), phase⟩ := by
  induction text generalizing literal with
  | nil => rfl
  | cons c rest ih =>
      rw [List.flatMap_cons, run?_append, run?_escapeChar, Option.bind_some, ih,
        List.reverse_append, List.append_assoc]

/-- A quoted text is read up to its end and is one token. -/
theorem run?_quote (text : String)
    (hfeed : phase.feed (.leaf (.string (escape text))) = some next) :
    run? ⟨.nothing, phase⟩ (quote (escape text)) = some ⟨.nothing, next⟩ := by
  have hopen : step ⟨.nothing, phase⟩ '"' = some ⟨.text [], phase⟩ := rfl
  have hclose : step ⟨.text (escape text).reverse, phase⟩ '"' = some ⟨.nothing, next⟩ := by
    simp [step, hfeed]
  have htext :
      run? ⟨.text [], phase⟩ (escape text) = some ⟨.text (escape text).reverse, phase⟩ := by
    rw [escape, run?_escape, List.append_nil]
  rw [quote, List.cons_append, run?, hopen, Option.bind_some, run?_append, htext, Option.bind_some,
    run?, hclose]
  rfl

/-! ## Numbers -/

theorem isNumeric_of_isDigit {c : Char} (h : c.isDigit = true) : isNumeric c = true := by
  simp [isNumeric, h]

theorem run?_numeric {rest literal : List Char} (h : ∀ c ∈ rest, isNumeric c = true) :
    run? ⟨.number literal, phase⟩ rest = some ⟨.number (rest.reverse ++ literal), phase⟩ := by
  induction rest generalizing literal with
  | nil => rfl
  | cons c rest ih =>
      obtain ⟨hc, hrest⟩ := List.forall_mem_cons.1 h
      have hstep : step ⟨.number literal, phase⟩ c = some ⟨.number (c :: literal), phase⟩ := by
        simp [step, hc]
      rw [run?, hstep, Option.bind_some, ih hrest, List.reverse_cons, List.append_assoc]
      rfl

theorem isNumeric_of_isExponentPart {literal : List Char} (h : isExponentPart literal = true) :
    ∀ c ∈ literal, isNumeric c = true := by
  cases literal with
  | nil => simp
  | cons mark rest =>
      simp only [isExponentPart, Bool.and_eq_true, Bool.or_eq_true, beq_iff_eq,
        List.all_eq_true] at h
      obtain ⟨⟨hmark, -⟩, hdigits⟩ := h
      have hsign : ∀ c ∈ rest, c ∈ (Numeral.splitSign rest).2 ∨ c = '-' ∨ c = '+' := by
        intro c hc
        unfold Numeral.splitSign
        split
        · rcases List.mem_cons.1 hc with rfl | hc
          · exact Or.inr (Or.inl rfl)
          · exact Or.inl hc
        · rcases List.mem_cons.1 hc with rfl | hc
          · exact Or.inr (Or.inr rfl)
          · exact Or.inl hc
        · exact Or.inl hc
      intro c hc
      rcases List.mem_cons.1 hc with rfl | hc
      · rcases hmark with rfl | rfl <;> rfl
      · rcases hsign c hc with hdigit | rfl | rfl
        · exact isNumeric_of_isDigit (hdigits c hdigit)
        · rfl
        · rfl

theorem isNumeric_of_mem_takeWhile {literal : List Char} {c : Char}
    (h : c ∈ literal.takeWhile Char.isDigit) : isNumeric c = true :=
  isNumeric_of_isDigit (List.all_eq_true.1 List.all_takeWhile c h)

theorem isNumeric_of_isFractionPart {literal : List Char} (h : isFractionPart literal = true) :
    ∀ c ∈ literal, isNumeric c = true := by
  unfold isFractionPart at h
  split at h
  · rename_i rest
    obtain ⟨-, hexponent⟩ := Bool.and_eq_true_iff.1 h
    intro c hc
    rcases List.mem_cons.1 hc with rfl | hc
    · rfl
    · rw [← List.takeWhile_append_dropWhile (p := Char.isDigit) (l := rest)] at hc
      rcases List.mem_append.1 hc with hwhole | hrest
      · exact isNumeric_of_mem_takeWhile hwhole
      · exact isNumeric_of_isExponentPart hexponent c hrest
  · exact isNumeric_of_isExponentPart h

/-- A number starts with a minus sign or a digit and holds nothing that is not numeric. -/
theorem exists_of_isNumber {literal : List Char} (h : isNumber literal = true) :
    ∃ c rest, literal = c :: rest ∧ (c = '-' ∨ c.isDigit = true) ∧
      ∀ c ∈ rest, isNumeric c = true := by
  have hparts (unsigned : List Char)
      (hfraction : isFractionPart (unsigned.dropWhile Char.isDigit) = true) :
      ∀ c ∈ unsigned, isNumeric c = true := by
    intro c hc
    rw [← List.takeWhile_append_dropWhile (p := Char.isDigit) (l := unsigned)] at hc
    rcases List.mem_append.1 hc with hwhole | hrest
    · exact isNumeric_of_mem_takeWhile hwhole
    · exact isNumeric_of_isFractionPart hfraction c hrest
  unfold isNumber at h
  split at h
  · rename_i rest
    obtain ⟨-, hfraction⟩ := Bool.and_eq_true_iff.1 h
    exact ⟨'-', rest, rfl, Or.inl rfl, hparts rest hfraction⟩
  · obtain ⟨hwhole, hfraction⟩ := Bool.and_eq_true_iff.1 h
    cases literal with
    | nil => simp at hwhole
    | cons c rest =>
        have hc : c.isDigit = true := by
          cases hdigit : c.isDigit with
          | true => rfl
          | false => simp [hdigit] at hwhole
        refine ⟨c, rest, rfl, Or.inr hc, fun d hd => ?_⟩
        exact hparts _ hfraction d (List.mem_cons_of_mem c hd)

theorem run?_number {literal : List Char} (h : isNumber literal = true)
    (hfeed : phase.feed (.leaf (.number literal)) = some next) :
    ∃ r, run? ⟨.nothing, phase⟩ literal = some r ∧ r.Settles next := by
  obtain ⟨c, rest, rfl, hc, hrest⟩ := exists_of_isNumber h
  have hblank : isBlank c = false := by
    rcases hc with rfl | hdigit
    · rfl
    · cases hblank : isBlank c with
      | false => rfl
      | true =>
          have hnumeric := isNumeric_of_isBlank hblank
          rw [isNumeric_of_isDigit hdigit] at hnumeric
          cases hnumeric
  have hquote : c ≠ '"' := by
    rintro rfl
    revert hc
    decide
  have hopen : step ⟨.nothing, phase⟩ c = some ⟨.number [c], phase⟩ := by
    simp [step, open?, hblank, hquote, hc]
  refine ⟨⟨.number (c :: rest).reverse, phase⟩, ?_, settles_number h hfeed⟩
  rw [run?, hopen, Option.bind_some, run?_numeric hrest, List.reverse_cons]

end Reader

/-! ## Whole documents -/

/-- A value may come next, and then it stands in the given brackets. -/
inductive Phase.Takes : Phase → List Frame → Prop where
  | value (frames : List Frame) : Takes (.value frames) frames
  | firstItem (frames : List Frame) : Takes (.firstItem frames) (.array [] :: frames)

namespace Phase.Takes

variable {phase : Phase} {frames : List Frame}

theorem feed_leaf (h : phase.Takes frames) (item : Json) :
    phase.feed (.leaf item) = some (complete item frames) := by
  cases h <;> rfl

theorem feed_openArray (h : phase.Takes frames) :
    phase.feed .openArray = some (.firstItem frames) := by
  cases h <;> rfl

theorem feed_openObject (h : phase.Takes frames) :
    phase.feed .openObject = some (.firstName frames) := by
  cases h <;> rfl

end Phase.Takes

/-- The characters that are tokens by themselves. -/
inductive IsMark : Char → Token → Prop where
  | openArray : IsMark '[' .openArray
  | closeArray : IsMark ']' .closeArray
  | openObject : IsMark '{' .openObject
  | closeObject : IsMark '}' .closeObject
  | colon : IsMark ':' .colon
  | comma : IsMark ',' .comma

open Reader

theorem Reader.Settles.step_mark {r : Reader} {phase next : Phase} {c : Char} {token : Token}
    (hr : r.Settles phase) (hc : IsMark c token) (hfeed : phase.feed token = some next) :
    r.step c = some ⟨.nothing, next⟩ := by
  cases hc <;> rw [hr.step_eq _ rfl rfl] <;> simp [open?, isBlank, hfeed]

/-- Wherever a value may stand, the written document is read as one. -/
def ReadsBack (s : Spacing) (j : Json) : Prop :=
  ∀ depth phase frames, Phase.Takes phase frames →
    ∃ r, Reader.run? ⟨.nothing, phase⟩ (lay s depth j) = some r ∧
      r.Settles (Phase.complete j frames)

variable {s : Spacing} {r : Reader} {frames : List Frame}

theorem readsBack_null : ReadsBack s .null := by
  intro depth phase frames h
  refine ⟨⟨.word ['l', 'l', 'u', 'n'], phase⟩, rfl, ?_⟩
  exact settles_word ['n', 'u', 'l', 'l'] rfl (h.feed_leaf .null)

theorem readsBack_bool (b : Bool) : ReadsBack s (.bool b) := by
  intro depth phase frames h
  cases b with
  | true =>
      refine ⟨⟨.word ['e', 'u', 'r', 't'], phase⟩, rfl, ?_⟩
      exact settles_word ['t', 'r', 'u', 'e'] rfl (h.feed_leaf (.bool true))
  | false =>
      refine ⟨⟨.word ['e', 's', 'l', 'a', 'f'], phase⟩, rfl, ?_⟩
      exact settles_word ['f', 'a', 'l', 's', 'e'] rfl (h.feed_leaf (.bool false))

theorem readsBack_number {literal : List Char} (h : isNumber literal = true) :
    ReadsBack s (.number literal) := by
  intro depth phase frames htakes
  exact run?_number h (htakes.feed_leaf (.number literal))

theorem readsBack_string (text : String) : ReadsBack s (.string (escape text)) := by
  intro depth phase frames h
  exact ⟨_, run?_quote text (h.feed_leaf (.string (escape text))), settles_nothing _⟩

/-- The further items of an array are read after those before them. -/
theorem run?_layItems (hs : s.IsBlank) {items : List Json}
    (hitems : ∀ item ∈ items, ReadsBack s item) {before : List Json} (depth : Nat)
    (hr : r.Settles (.afterItem before frames)) :
    ∃ r', r.run? (layItems s depth items) = some r' ∧
      r'.Settles (Phase.complete (.array (before.reverse ++ items)) frames) := by
  induction items generalizing r before with
  | nil =>
      obtain ⟨r₁, hblanks, hr₁⟩ := hr.run?_blanks (hs.before depth)
      have hclose := hr₁.step_mark .closeArray rfl
      refine ⟨_, ?_, settles_nothing _⟩
      rw [layItems, run?_append, hblanks, Option.bind_some, run?, hclose, List.append_nil]
      rfl
  | cons item rest ih =>
      obtain ⟨hitem, hrest⟩ := List.forall_mem_cons.1 hitems
      have hcomma := hr.step_mark .comma rfl
      obtain ⟨r₁, hread, hr₁⟩ := hitem (depth + 1) _ _ (.value (.array before :: frames))
      obtain ⟨r₂, hlater, hr₂⟩ := ih hrest hr₁
      refine ⟨r₂, ?_, ?_⟩
      · rw [layItems, List.cons_append, List.cons_append, run?, hcomma, Option.bind_some,
          List.append_assoc, run?_append, run?_blanks (hs.before _), Option.bind_some, run?_append,
          hread, Option.bind_some, hlater]
      · rw [List.reverse_cons, List.append_assoc] at hr₂
        exact hr₂

theorem readsBack_array (hs : s.IsBlank) {items : List Json}
    (hitems : ∀ item ∈ items, ReadsBack s item) : ReadsBack s (.array items) := by
  intro depth phase frames h
  have hopen := (settles_nothing phase).step_mark .openArray h.feed_openArray
  cases items with
  | nil =>
      have hclose := (settles_nothing (.firstItem frames)).step_mark .closeArray rfl
      refine ⟨_, ?_, settles_nothing _⟩
      rw [lay, run?, hopen, Option.bind_some, run?, hclose]
      rfl
  | cons item rest =>
      obtain ⟨hitem, hrest⟩ := List.forall_mem_cons.1 hitems
      obtain ⟨r₁, hread, hr₁⟩ := hitem (depth + 1) _ _ (.firstItem frames)
      obtain ⟨r₂, hlater, hr₂⟩ := run?_layItems hs hrest depth hr₁
      refine ⟨r₂, ?_, hr₂⟩
      rw [lay, List.cons_append, List.cons_append, run?, hopen, Option.bind_some, List.append_assoc,
        run?_append, run?_blanks (hs.before _), Option.bind_some, run?_append, hread,
        Option.bind_some, hlater]

/-- The name of a field, its colon and its value. -/
theorem run?_field (hs : s.IsBlank) (phase : Phase) {before : List (List Char × Json)}
    {name : List Char} {value : Json} (hname : ∃ text, name = escape text)
    (hvalue : ReadsBack s value) (depth : Nat)
    (hfeed : ∀ key, phase.feed (.leaf (.string key)) = some (.colon before key frames)) :
    ∃ r, Reader.run? ⟨.nothing, phase⟩
        (quote name ++ ':' :: s.afterColon ++ lay s depth value) = some r ∧
      r.Settles (.afterField ((name, value) :: before) frames) := by
  obtain ⟨text, rfl⟩ := hname
  have hcolon := (settles_nothing (.colon before (escape text) frames)).step_mark .colon rfl
  obtain ⟨r, hread, hr⟩ := hvalue depth _ _ (.value (.object before (escape text) :: frames))
  refine ⟨r, ?_, hr⟩
  rw [List.append_assoc, run?_append, run?_quote text (hfeed _), Option.bind_some, List.cons_append,
    run?, hcolon, Option.bind_some, run?_append, run?_blanks hs.afterColon, Option.bind_some, hread]

/-- The further fields of an object are read after those before them. -/
theorem run?_layFields (hs : s.IsBlank) {fields : List (List Char × Json)}
    (hnames : ∀ field ∈ fields, ∃ text, field.1 = escape text)
    (hvalues : ∀ field ∈ fields, ReadsBack s field.2) {before : List (List Char × Json)}
    (depth : Nat) (hr : r.Settles (.afterField before frames)) :
    ∃ r', r.run? (layFields s depth fields) = some r' ∧
      r'.Settles (Phase.complete (.object (before.reverse ++ fields)) frames) := by
  induction fields generalizing r before with
  | nil =>
      obtain ⟨r₁, hblanks, hr₁⟩ := hr.run?_blanks (hs.before depth)
      have hclose := hr₁.step_mark .closeObject rfl
      refine ⟨_, ?_, settles_nothing _⟩
      rw [layFields, run?_append, hblanks, Option.bind_some, run?, hclose, List.append_nil]
      rfl
  | cons field rest ih =>
      obtain ⟨name, value⟩ := field
      obtain ⟨hname, hnames⟩ := List.forall_mem_cons.1 hnames
      obtain ⟨hvalue, hvalues⟩ := List.forall_mem_cons.1 hvalues
      have hcomma := hr.step_mark .comma rfl
      obtain ⟨r₁, hread, hr₁⟩ := run?_field hs (.name before frames) hname hvalue (depth + 1)
        fun _ => rfl
      obtain ⟨r₂, hlater, hr₂⟩ := ih hnames hvalues hr₁
      refine ⟨r₂, ?_, ?_⟩
      · have hlay : layFields s depth ((name, value) :: rest) =
            ',' :: (s.before (depth + 1) ++ (quote name ++ ':' :: s.afterColon ++
              lay s (depth + 1) value ++ layFields s depth rest)) := by
          simp [layFields]
        rw [hlay, run?, hcomma, Option.bind_some, run?_append, run?_blanks (hs.before _),
          Option.bind_some, run?_append, hread, Option.bind_some, hlater]
      · rw [List.reverse_cons, List.append_assoc] at hr₂
        exact hr₂

theorem readsBack_object (hs : s.IsBlank) {fields : List (List Char × Json)}
    (hnames : ∀ field ∈ fields, ∃ text, field.1 = escape text)
    (hvalues : ∀ field ∈ fields, ReadsBack s field.2) : ReadsBack s (.object fields) := by
  intro depth phase frames h
  have hopen := (settles_nothing phase).step_mark .openObject h.feed_openObject
  cases fields with
  | nil =>
      have hclose := (settles_nothing (.firstName frames)).step_mark .closeObject rfl
      refine ⟨_, ?_, settles_nothing _⟩
      rw [lay, run?, hopen, Option.bind_some, run?, hclose]
      rfl
  | cons field rest =>
      obtain ⟨name, value⟩ := field
      obtain ⟨hname, hnames⟩ := List.forall_mem_cons.1 hnames
      obtain ⟨hvalue, hvalues⟩ := List.forall_mem_cons.1 hvalues
      obtain ⟨r₁, hread, hr₁⟩ := run?_field hs (.firstName frames) hname hvalue (depth + 1)
        fun _ => rfl
      obtain ⟨r₂, hlater, hr₂⟩ := run?_layFields hs hnames hvalues depth hr₁
      refine ⟨r₂, ?_, hr₂⟩
      have hlay : lay s depth (.object ((name, value) :: rest)) =
          '{' :: (s.before (depth + 1) ++ (quote name ++ ':' :: s.afterColon ++
            lay s (depth + 1) value ++ layFields s depth rest)) := by
        simp [lay]
      rw [hlay, run?, hopen, Option.bind_some, run?_append, run?_blanks (hs.before _),
        Option.bind_some, run?_append, hread, Option.bind_some, hlater]

theorem IsWritten.readsBack (hs : s.IsBlank) {j : Json} (hj : j.IsWritten) : ReadsBack s j := by
  induction hj with
  | null => exact readsBack_null
  | bool b => exact readsBack_bool b
  | number h => exact readsBack_number h
  | string text => exact readsBack_string text
  | array _ ih => exact readsBack_array hs ih
  | object hnames _ ih => exact readsBack_object hs hnames ih

/-- A written document reads back to itself, with any blanks between its tokens. -/
theorem read?_write (hs : s.IsBlank) {j : Json} (hj : j.IsWritten) :
    read? (j.write s) = some j := by
  obtain ⟨r, hread, hr⟩ := hj.readsBack hs 0 _ _ (.value [])
  have hfinish : r.finish = some j := by
    rw [Reader.finish, hr.settle_eq]
    rfl
  rw [read?, write, String.toList_ofList, readFrom_eq, hread, Option.bind_some, hfinish]

end ModuleRecovery.Json
