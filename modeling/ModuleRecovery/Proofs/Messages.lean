import Mathlib.Data.List.Infix
import ModuleRecovery.CommandLine.Failure
import ModuleRecovery.CommandLine.FileTree

/-!
What the messages of failures mention. A message is put together from parts with a colon and a
blank between two of them, and none of the phrases that decide on the exit code can reach over
such a mark; so a message mentions a phrase exactly if one of its parts does. Main statement: the
exit code of a failure is that of its kind, or of a kind looked for earlier if a text that the
failure quotes has the phrase for it.
-/

namespace ModuleRecovery

theorem Text.mentions_iff {phrase text : List Char} :
    mentions phrase text = true ↔ phrase <:+: text := by
  induction text with
  | nil => simp [mentions]
  | cons c rest ih =>
      rw [mentions, Bool.or_eq_true, List.isPrefixOf_iff_prefix, ih, List.infix_cons_iff]

/-- What avoids the character between two texts stands in one of them. -/
theorem Text.infix_append_cons_iff {l a b : List Char} {mark : Char} (h : mark ∉ l) :
    l <:+: a ++ mark :: b ↔ l <:+: a ∨ l <:+: b := by
  have hstart {part : List Char} (hpart : mark ∉ part) (hp : part <+: mark :: b) : part = [] := by
    rcases List.prefix_cons_iff.1 hp with hnil | ⟨rest, rfl, -⟩
    · exact hnil
    · exact absurd List.mem_cons_self hpart
  constructor
  · intro hl
    rcases List.infix_append_iff.1 hl with ha | hb | ⟨left, right, rfl, hleft, hright⟩
    · exact Or.inl ha
    · rcases List.infix_cons_iff.1 hb with hp | hb
      · rw [hstart h hp]
        exact Or.inl (List.nil_infix)
      · exact Or.inr hb
    · have hnil := hstart (fun hmem => h (List.mem_append_right left hmem)) hright
      rw [hnil, List.append_nil]
      exact Or.inl hleft.isInfix
  · rintro (ha | hb)
    · exact ha.trans (List.prefix_append a _).isInfix
    · exact (List.infix_cons hb).trans (List.suffix_append a _).isInfix

/-! ## Characters of numbers -/

namespace NumberStyle

theorem mem_layPlain {style : NumberStyle} {digits : List Char} {point : Int} {c : Char}
    (h : c ∈ style.layPlain digits point) : c ∈ digits ∨ c = '0' ∨ c = '.' := by
  have hzeros {count : Int} (hc : c ∈ zeros count) : c = '0' := List.eq_of_mem_replicate hc
  rw [layPlain] at h
  split_ifs at h with hnone hall hzero
  · simp only [List.mem_cons, List.mem_append] at h
    rcases h with (h | h | h) | h
    · exact Or.inr (Or.inl h)
    · exact Or.inr (Or.inr h)
    · exact Or.inr (Or.inl (hzeros h))
    · exact Or.inl h
  · simp only [List.mem_append, List.mem_cons, List.not_mem_nil, or_false] at h
    rcases h with (h | h) | h
    · exact Or.inl h
    · exact Or.inr (Or.inl (hzeros h))
    · exact Or.inr h.symm
  · simp only [List.mem_append, List.not_mem_nil, or_false] at h
    rcases h with h | h
    · exact Or.inl h
    · exact Or.inr (Or.inl (hzeros h))
  · rcases List.mem_append.1 h with h | h
    · exact Or.inl (List.mem_of_mem_take h)
    · rcases List.mem_cons.1 h with h | h
      · exact Or.inr (Or.inr h)
      · exact Or.inl (List.mem_of_mem_drop h)

/-- In running text a number has digits and a few other characters. -/
theorem mem_prose {x : Binary64} {c : Char} (h : c ∈ prose.lay x) :
    c.isDigit = true ∨ c ∈ ['-', '.', 'N', 'a', 'n', 'i', 'f'] := by
  cases x with
  | nan =>
      have hname : prose.nan.toList ⊆ ['-', '.', 'N', 'a', 'n', 'i', 'f'] := by decide
      exact Or.inr (hname h)
  | signed negative magnitude =>
      rcases List.mem_append.1 h with hsign | hmagnitude
      · cases negative with
        | false => cases hsign
        | true =>
            rw [List.mem_singleton.1 hsign]
            exact Or.inr (by decide)
      · split_ifs at hmagnitude with hfinite
        · simp only [layMagnitude] at hmagnitude
          split_ifs at hmagnitude with hzero hfew hplain
          · exact absurd hfew (by decide)
          · rw [List.mem_singleton.1 hmagnitude]
            exact Or.inl rfl
          · rcases mem_layPlain hmagnitude with hdigit | rfl | rfl
            · exact Or.inl (Nat.isDigit_of_mem_toDigits (by decide) (by decide) hdigit)
            · exact Or.inl rfl
            · exact Or.inr (by decide)
          · exact absurd rfl hplain
        · have hname : prose.infinity.toList ⊆ ['-', '.', 'N', 'a', 'n', 'i', 'f'] := by decide
          exact Or.inr (hname hmagnitude)

end NumberStyle

namespace Failure

/-- Whether a text holds a phrase, in any case of letters. -/
def Mentions (phrase text : String) : Prop := phrase.toList <:+: text.toList.map lower

instance (phrase text : String) : Decidable (Mentions phrase text) :=
  inferInstanceAs (Decidable (_ <:+: _))

/-- A phrase that cannot reach from one part of a message into the next. -/
def StaysInPart (phrase : String) : Prop :=
  ':' ∉ phrase.toList ∧ phrase.toList.head?.any (· ≠ ' ') = true

instance (phrase : String) : Decidable (StaysInPart phrase) :=
  inferInstanceAs (Decidable (_ ∧ _))

variable {phrase : String}

theorem StaysInPart.mentions_append (h : StaysInPart phrase) (a b : String) :
    Mentions phrase (a ++ ": " ++ b) ↔ Mentions phrase a ∨ Mentions phrase b := by
  have hmark : (a ++ ": " ++ b).toList.map lower =
      a.toList.map lower ++ ':' :: ' ' :: b.toList.map lower := by
    simp [String.toList_append, lower]
  obtain ⟨hcolon, hfirst⟩ := h
  have hblank : phrase.toList <:+: ' ' :: b.toList.map lower ↔
      phrase.toList <:+: b.toList.map lower := by
    rw [List.infix_cons_iff, or_iff_right]
    intro hp
    rcases List.prefix_cons_iff.1 hp with hnil | ⟨rest, hcons, -⟩
    · simp [hnil] at hfirst
    · simp [hcons] at hfirst
  rw [Mentions, hmark, Text.infix_append_cons_iff hcolon, hblank]
  rfl

theorem StaysInPart.mentions_intercalate (h : StaysInPart phrase) (parts : List String) :
    Mentions phrase (": ".intercalate parts) ↔ ∃ part ∈ parts, Mentions phrase part := by
  induction parts with
  | nil =>
      have hempty : ¬Mentions phrase "" := by
        intro hnil
        have hfirst := h.2
        simp [List.infix_nil.1 hnil] at hfirst
      simp [hempty]
  | cons first rest ih =>
      cases rest with
      | nil => simp
      | cons second rest =>
          rw [String.intercalate_cons_cons, h.mentions_append, ih]
          simp

/-- A text after a label that has nothing of a phrase. -/
theorem StaysInPart.mentions_labelled (h : StaysInPart phrase) (label text : String)
    (hlabel : ¬Mentions phrase label) :
    Mentions phrase (label ++ ": " ++ text) ↔ Mentions phrase text := by
  rw [h.mentions_append, or_iff_right hlabel]

theorem StaysInPart.mentions_text (h : StaysInPart phrase) (f : Failure) :
    Mentions phrase f.text ↔ ∃ part ∈ f.chain, Mentions phrase part :=
  h.mentions_intercalate f.chain

theorem codeOf_eq (message : String) :
    codeOf message =
      if Mentions "cannot read call graph" message then 3
      else if Mentions "config" message then 2
      else if Mentions "cannot be empty" message ∨ Mentions "unknown class" message then 4
      else 1 := by
  simp only [codeOf, Text.mentions_iff, Bool.or_eq_true]
  rfl

/-- The phrases that decide on the exit code. -/
def phrases : List String :=
  ["cannot read call graph", "config", "cannot be empty", "unknown class"]

theorem staysInPart : ∀ phrase ∈ phrases, StaysInPart phrase := by decide

theorem staysInPart_callGraph : StaysInPart "cannot read call graph" := staysInPart _ (by decide)

theorem staysInPart_config : StaysInPart "config" := staysInPart _ (by decide)

/-! ## Kinds of failures -/

end Failure

/-- What a failure is about. -/
inductive FailureKind where
  | callGraph
  | settings
  | argument
  | other
  deriving DecidableEq, Repr

def FailureKind.code : FailureKind → Nat
  | callGraph => 3
  | settings => 2
  | argument => 4
  | other => 1

/-- What the system can say when a file of a tree is written. -/
def FileError.ofWriting : List FileError :=
  [notFound, alreadyExists, notDirectory, isDirectory, refused]

/-- The texts in an error that the program has from elsewhere. -/
def SettingsError.quoted : SettingsError → List String
  | notFound path => [path]
  | invalid _ => []
  | unreadable detail => [detail]

namespace Failure

def kind : Failure → FailureKind
  | callGraph _ _ => .callGraph
  | settings _ _ | refused _ | analysis _ => .settings
  | coupling _ => .argument
  | output _ _ => .other

/-- The paths that a failure tells, and what was found wrong in a file of settings. What was found
wrong in a call graph does not matter: its message is known by its label. -/
def quoted : Failure → List String
  | callGraph path _ | output path _ => [path]
  | settings path error => path :: error.quoted
  | refused _ | analysis _ | coupling _ => []

def Quotes (f : Failure) (phrase : String) : Prop := ∃ text ∈ f.quoted, Mentions phrase text

instance (f : Failure) (phrase : String) : Decidable (f.Quotes phrase) :=
  inferInstanceAs (Decidable (∃ text ∈ f.quoted, Mentions phrase text))

/-- The kind that the message of a failure seems to be of: the first that it is of or quotes a
phrase for. -/
def apparentKind (f : Failure) : FailureKind :=
  if f.kind = .callGraph ∨ f.Quotes "cannot read call graph" then .callGraph
  else if f.kind = .settings ∨ f.Quotes "config" then .settings
  else if f.kind = .argument ∨ f.Quotes "cannot be empty" ∨ f.Quotes "unknown class" then .argument
  else .other

/-- The failures that there can be: reasons against settings are those of the two checks, and the
system says one of five things when a file cannot be written. -/
def Arises : Failure → Prop
  | callGraph _ _ | coupling _ => True
  | settings path error =>
      error = .notFound path ∨ (∃ detail, error = .unreadable detail) ∨
        ∃ fault : InvalidSetting, error = .invalid fault.message
  | refused error | analysis error => ∃ fault : InvalidSetting, error = .invalid fault.message
  | output _ error => ∃ e ∈ FileError.ofWriting, error.cause = e.message

theorem apparentKind_eq_kind {f : Failure} (h : ∀ phrase ∈ phrases, ¬f.Quotes phrase) :
    f.apparentKind = f.kind := by
  have hread := h "cannot read call graph" (by decide)
  have hconfig := h "config" (by decide)
  have hempty := h "cannot be empty" (by decide)
  have hunknown := h "unknown class" (by decide)
  cases hkind : f.kind <;> simp [apparentKind, hkind, hread, hconfig, hempty, hunknown]

/-! ## Exit codes -/

theorem not_mentions_append {c : Char} (hphrase : c ∈ phrase.toList) {a b : String}
    (ha : c ∉ a.toList.map lower) (hb : c ∉ b.toList.map lower) : ¬Mentions phrase (a ++ b) := by
  intro h
  have hmem := h.subset hphrase
  rw [String.toList_append, List.map_append, List.mem_append] at hmem
  exact hmem.elim ha hb

theorem lower_of_isDigit {c : Char} (h : c.isDigit = true) : lower c = c := by
  have hkelvin : c ≠ '\u212A' := by
    rintro rfl
    exact absurd h (by decide)
  have hupper : ¬(c.val ≥ 'A'.val ∧ c.val ≤ 'Z'.val) := by grind [Char.isDigit]
  rw [lower, if_neg hkelvin]
  exact dif_neg hupper

/-- The reasons of the two checks have nothing of a call graph: no number has an `h` in it. -/
theorem not_mentions_message (fault : InvalidSetting) :
    ¬Mentions "cannot read call graph" fault.message := by
  cases fault with
  | noSteps => decide
  | minimum value =>
      have hphrase : 'h' ∈ "cannot read call graph".toList := by decide
      apply not_mentions_append hphrase (by decide)
      rw [NumberStyle.write, String.toList_ofList, List.mem_map]
      rintro ⟨c, hc, hlower⟩
      rcases NumberStyle.mem_prose hc with hdigit | hother
      · rw [lower_of_isDigit hdigit] at hlower
        subst hlower
        exact absurd hdigit (by decide)
      · simp only [List.mem_cons, List.not_mem_nil, or_false] at hother
        rcases hother with rfl | rfl | rfl | rfl | rfl | rfl | rfl <;>
          exact absurd hlower (by decide)

theorem not_mentions_invalid (fault : InvalidSetting) :
    ¬Mentions "cannot read call graph" (SettingsError.invalid fault.message).message := by
  have hmessage :=
    staysInPart_callGraph.mentions_labelled "Invalid config" fault.message (by decide)
  exact fun h => not_mentions_message fault (hmessage.1 h)

theorem mentions_quoted {path : String} {error : SettingsError}
    (h : (settings path error).Arises) :
    Mentions "cannot read call graph" error.message ↔
      ∃ text ∈ error.quoted, Mentions "cannot read call graph" text := by
  rcases h with rfl | ⟨detail, rfl⟩ | ⟨fault, rfl⟩
  · simp only [SettingsError.quoted, List.mem_singleton, exists_eq_left]
    exact staysInPart_callGraph.mentions_labelled "Config file not found" path (by decide)
  · simp only [SettingsError.quoted, List.mem_singleton, exists_eq_left]
    exact staysInPart_callGraph.mentions_labelled "Parse error" detail (by decide)
  · exact iff_of_false (not_mentions_invalid fault) (by simp [SettingsError.quoted])

/-- What a label of a message has of a phrase, the message has. -/
theorem StaysInPart.mentions_of_label (h : StaysInPart phrase) {f : Failure} (label text : String)
    (hpart : label ++ ": " ++ text ∈ f.chain) (hlabel : Mentions phrase label) :
    Mentions phrase f.text :=
  (h.mentions_text f).2 ⟨_, hpart, (h.mentions_append label text).2 (Or.inl hlabel)⟩

theorem exitCode_callGraph (path : String) (error : InputError) :
    (callGraph path error).exitCode = 3 := by
  have hsays : Mentions "cannot read call graph" (callGraph path error).text := by
    apply staysInPart_callGraph.mentions_of_label "Cannot read call graph" path List.mem_cons_self
    decide
  rw [exitCode, codeOf_eq, if_pos hsays]

/-- Every message on settings says so; only what it quotes can make it seem to be another. -/
theorem exitCode_settings {path : String} {error : SettingsError}
    (h : (settings path error).Arises) :
    (settings path error).exitCode =
      if (settings path error).Quotes "cannot read call graph" then 3 else 2 := by
  have hquotes : Mentions "cannot read call graph" (settings path error).text ↔
      (settings path error).Quotes "cannot read call graph" := by
    have hpath := staysInPart_callGraph.mentions_labelled "Cannot load config" path (by decide)
    rw [staysInPart_callGraph.mentions_text]
    simp only [chain, List.mem_cons, List.not_mem_nil, or_false, exists_eq_or_imp, exists_eq_left,
      Quotes, quoted, mentions_quoted h]
    exact or_congr_left hpath
  have hsays : Mentions "config" (settings path error).text :=
    staysInPart_config.mentions_of_label "Cannot load config" path List.mem_cons_self (by decide)
  rw [exitCode, codeOf_eq]
  simp only [hquotes, hsays, if_true]

theorem exitCode_refused (fault : InvalidSetting) :
    (refused (.invalid fault.message)).exitCode = 2 := by
  have hnot : ¬Mentions "cannot read call graph" (refused (.invalid fault.message)).text := by
    rw [staysInPart_callGraph.mentions_text]
    simp only [chain, List.mem_singleton, exists_eq_left]
    exact not_mentions_invalid fault
  have hsays : Mentions "config" (refused (.invalid fault.message)).text := by
    apply staysInPart_config.mentions_of_label "Invalid config" fault.message List.mem_cons_self
    decide
  rw [exitCode, codeOf_eq, if_neg hnot, if_pos hsays]

theorem exitCode_analysis (fault : InvalidSetting) :
    (analysis (.invalid fault.message)).exitCode = 2 := by
  have hnot : ¬Mentions "cannot read call graph" (analysis (.invalid fault.message)).text := by
    have hlabel := staysInPart_callGraph.mentions_labelled "Configuration error"
      (SettingsError.invalid fault.message).message (by decide)
    rw [staysInPart_callGraph.mentions_text]
    simp only [chain, List.mem_cons, List.not_mem_nil, or_false, exists_eq_or_imp, exists_eq_left,
      not_or]
    exact ⟨fun h => not_mentions_invalid fault (hlabel.1 h), not_mentions_invalid fault⟩
  have hsays : Mentions "config" (analysis (.invalid fault.message)).text :=
    staysInPart_config.mentions_of_label "Configuration error" _ List.mem_cons_self (by decide)
  rw [exitCode, codeOf_eq, if_neg hnot, if_pos hsays]

theorem exitCode_coupling (error : MissingClass) : (coupling error).exitCode = 4 := by
  obtain ⟨argument⟩ := error
  cases argument <;> decide

/-- The program has no phrase of its own for a file that cannot be written. -/
theorem mentions_output {path : String} {error : OutputError} (h : (output path error).Arises)
    (hphrase : phrase ∈ phrases) :
    Mentions phrase (output path error).text ↔ Mentions phrase path := by
  have hstays := staysInPart phrase hphrase
  have hown : ∀ phrase ∈ phrases, ¬Mentions phrase "Cannot write output" ∧
      ¬Mentions phrase "IO error" ∧ ∀ e ∈ FileError.ofWriting, ¬Mentions phrase e.message := by
    decide +kernel
  obtain ⟨hcannot, hio, hreasons⟩ := hown phrase hphrase
  obtain ⟨e, he, hcause⟩ := h
  have hreason : ¬Mentions phrase error.cause := hcause ▸ hreasons e he
  have hpath := hstays.mentions_labelled "Cannot write output" path hcannot
  have hmessage : ¬Mentions phrase error.message :=
    fun h => hreason ((hstays.mentions_labelled "IO error" error.cause hio).1 h)
  rw [hstays.mentions_text]
  simp only [chain, List.mem_cons, List.not_mem_nil, or_false, exists_eq_or_imp, exists_eq_left,
    hmessage, hreason]
  exact hpath

theorem exitCode_output {path : String} {error : OutputError} (h : (output path error).Arises) :
    (output path error).exitCode = codeOf path := by
  have hphrase (p : String) (hp : p ∈ phrases) := mentions_output h hp
  rw [exitCode, codeOf_eq, codeOf_eq]
  simp only [hphrase "cannot read call graph" (by decide), hphrase "config" (by decide),
    hphrase "cannot be empty" (by decide), hphrase "unknown class" (by decide)]

/-- The exit code of every failure that there can be. -/
theorem exitCode_eq {f : Failure} (h : f.Arises) : f.exitCode = f.apparentKind.code := by
  cases f with
  | callGraph path error =>
      rw [exitCode_callGraph]
      rfl
  | settings path error =>
      rw [exitCode_settings h]
      by_cases hquotes : (settings path error).Quotes "cannot read call graph" <;>
        simp [apparentKind, kind, hquotes, FailureKind.code]
  | refused error =>
      obtain ⟨fault, rfl⟩ := h
      rw [exitCode_refused]
      rfl
  | analysis error =>
      obtain ⟨fault, rfl⟩ := h
      rw [exitCode_analysis]
      rfl
  | coupling error =>
      rw [exitCode_coupling]
      rfl
  | output path error =>
      have hquotes (p : String) : (output path error).Quotes p ↔ Mentions p path := by
        simp [Quotes, quoted]
      rw [exitCode_output h, codeOf_eq]
      simp only [apparentKind, hquotes, kind, reduceCtorEq, false_or]
      split_ifs <;> rfl

end Failure

end ModuleRecovery
