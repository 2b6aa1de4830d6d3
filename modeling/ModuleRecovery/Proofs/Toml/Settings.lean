import ModuleRecovery.Proofs.Attempts
import ModuleRecovery.Proofs.Toml.Documents

/-!
Settings that are written as a document are read back. What is written are two sections, and a line
for each setting that is not absent. Reading validates, but only what it has read, so settings that
no run may have are refused as such, never as a text that makes no sense. Main statement: a count
of more than 63 bits cannot be written; all else is read back, or told to be invalid if it is.
-/

namespace ModuleRecovery.Settings

open Toml (Entry Block IsBare Document IsDocument Pair Section Place Fault Item)

variable {s : Settings}

/-! ## Sections -/

def minimumEntry (x : Binary64) : Entry where
  name := "min_coupling_average"
  literal := numberStyle.lay x
  item := .float x
  isBare := by decide
  readsAs := Toml.readsAs_number x

theorem le_of_fits {n : Nat} (h : fits (some n) = true) : n ≤ largestInteger := of_decide_eq_true h

/-- The line of a count, if there is one. -/
def countEntries (name : String) (hname : IsBare name) : (n : Option Nat) → fits n = true →
    List Entry
  | none, _ => []
  | some n, h => [⟨name, Nat.toDigits 10 n, .integer n, hname, Toml.readsAs_count (le_of_fits h)⟩]

def isolatedEntry (b : Bool) : Entry where
  name := "include_isolated"
  literal := (if b then "true" else "false").toList
  item := .boolean b
  isBare := by decide
  readsAs := Toml.readsAs_truth b

theorem layEntries_countEntries {name : String} (hname : IsBare name) {n : Option Nat}
    (h : fits n = true) (rest : List Char) :
    Block.layEntries (countEntries name hname n h) rest = (countLine name n).toList ++ rest := by
  cases n with
  | none => rfl
  | some n =>
      simp [countEntries, Block.layEntries, Entry.lay, countLine, Nat.toString_eq_repr,
        Nat.repr_eq_ofList_toDigits]

/-- The section `analysis`, if its counts fit. -/
def analysisBlock (s : Settings) (htotal : fits s.totalClasses = true)
    (hbudget : fits s.stepBudget = true) : Block where
  name := "analysis"
  entries := minimumEntry s.minCouplingAverage ::
    (countEntries "total_classes" (by decide) s.totalClasses htotal ++
      countEntries "step_budget" (by decide) s.stepBudget hbudget)
  isBare := by decide
  nodup := by
    obtain ⟨minimum, total, budget, isolated⟩ := s
    cases total <;> cases budget <;> simp [minimumEntry, countEntries]

def outputBlock (s : Settings) : Block where
  name := "output"
  entries := [isolatedEntry s.includeIsolated]
  isBare := by decide
  nodup := List.nodup_singleton _

theorem lay_analysisBlock (htotal : fits s.totalClasses = true)
    (hbudget : fits s.stepBudget = true) (rest : List Char) :
    (s.analysisBlock htotal hbudget).lay rest =
      "[analysis]\nmin_coupling_average = ".toList ++ (numberStyle.lay s.minCouplingAverage ++
        ("\n".toList ++ ((countLine "total_classes" s.totalClasses).toList ++
          ((countLine "step_budget" s.stepBudget).toList ++ rest)))) := by
  rw [← layEntries_countEntries (by decide) hbudget rest,
    ← layEntries_countEntries (by decide) htotal]
  simp [Block.lay, Block.layName, Block.layEntries, analysisBlock, minimumEntry, Entry.lay]

theorem lay_outputBlock (s : Settings) :
    '\n' :: s.outputBlock.lay [] = "\n[output]\ninclude_isolated = ".toList ++
      ((if s.includeIsolated then "true" else "false").toList ++ "\n".toList) := by
  simp [Block.lay, Block.layName, Block.layEntries, outputBlock, isolatedEntry, Entry.lay]

/-- What is written is one section and then the other, with an empty line between them. -/
theorem toList_toText {text : String} (h : s.toText = .ok text) :
    ∃ htotal hbudget,
      text.toList = (s.analysisBlock htotal hbudget).lay ('\n' :: s.outputBlock.lay []) := by
  rw [toText] at h
  split at h
  · rename_i hfits
    refine ⟨hfits.1, hfits.2, ?_⟩
    cases h
    rw [lay_analysisBlock, lay_outputBlock]
    simp only [String.toList_append, List.append_assoc, NumberStyle.write, String.toList_ofList]
  · cases h

theorem fits_eq_false_iff {count : Option Nat} :
    fits count = false ↔ ∃ n, 2 ^ 63 - 1 < n ∧ count = some n := by
  have hlargest : largestInteger = 2 ^ 63 - 1 := by decide
  cases count with
  | none => simp [fits]
  | some n => simp [fits, hlargest]

/-- A count that does not fit is all that keeps settings from being written. -/
theorem toText_cases (s : Settings) :
    ((fits s.totalClasses = false ∨ fits s.stepBudget = false) ∧
        ∃ detail, s.toText = .error (.unreadable detail)) ∨
      (fits s.totalClasses = true ∧ fits s.stepBudget = true) ∧ ∃ text, s.toText = .ok text := by
  by_cases hfits : fits s.totalClasses = true ∧ fits s.stepBudget = true
  · exact Or.inr ⟨hfits, _, if_pos hfits⟩
  · refine Or.inl ⟨?_, _, if_neg hfits⟩
    rw [not_and_or, Bool.not_eq_true, Bool.not_eq_true] at hfits
    exact hfits

/-! ## Reading -/

/-- The settings with those of lines changed, one after the other. -/
def setLines (set : Settings → String → Place → Item → Except Fault Settings) (s : Settings)
    (pairs : List Pair) : Except Fault Settings :=
  pairs.foldlM
    (fun s p => set s p.key.last.name (p.item.place.getD p.key.last.place) p.item.value) s

theorem setSection_field (names : List String)
    (set : Settings → String → Place → Item → Except Fault Settings) (s : Settings)
    (place : Place) (written : Section) :
    setSection names set s place written.field.2.value = setLines set s written.lines := by
  rw [Section.field, setSection, setLines, List.foldlM_map]
  rfl

theorem setLines_analysis (htotal : fits s.totalClasses = true)
    (hbudget : fits s.stepBudget = true) (rest : List Char) :
    setLines setAnalysis standard ((s.analysisBlock htotal hbudget).scanned rest).lines =
      .ok { s with includeIsolated := standard.includeIsolated } := by
  obtain ⟨minimum, total, budget, isolated⟩ := s
  cases total <;> cases budget <;> rfl

theorem setLines_output (t : Settings) :
    setLines setOutput t (s.outputBlock.scanned []).lines =
      .ok { t with includeIsolated := s.includeIsolated } := rfl

/-- A document with the two sections in their order. -/
theorem ofFields_sections {analysis output : Section}
    (hanalysis : analysis.header.key.last.name = "analysis")
    (houtput : output.header.key.last.name = "output") :
    ofFields [analysis.field, output.field] =
      (setLines setAnalysis standard analysis.lines).bind fun s =>
        setLines setOutput s output.lines := by
  have hfirst : analysis.field.1.name = "analysis" := hanalysis
  have hsecond : output.field.1.name = "output" := houtput
  simp only [ofFields, List.foldlM_cons, List.foldlM_nil, hfirst, hsecond, setSection_field,
    bind_pure]
  rfl

theorem ofFields_scanned (htotal : fits s.totalClasses = true)
    (hbudget : fits s.stepBudget = true) (rest : List Char) :
    ofFields [((s.analysisBlock htotal hbudget).scanned rest).field,
      (s.outputBlock.scanned []).field] = .ok s := by
  rw [ofFields_sections rfl rfl, setLines_analysis]
  exact setLines_output { s with includeIsolated := standard.includeIsolated }

/-- What has been written is read, also if it is invalid. -/
theorem read_toText {text : String} (h : s.toText = .ok text) : read text.toList = .ok s := by
  obtain ⟨htotal, hbudget, htext⟩ := toList_toText h
  let analysis := (s.analysisBlock htotal hbudget).scanned ('\n' :: s.outputBlock.lay [])
  let output := s.outputBlock.scanned []
  have hdocument : IsDocument text.toList ⟨[], [analysis, output]⟩ := by
    rw [htext]
    exact ((IsDocument.nil.block s.outputBlock).newline).block (s.analysisBlock htotal hbudget)
  have hmark (rest : List Char) : text.toList ≠ '\uFEFF' :: rest := by
    rw [htext]
    exact fun h => absurd (List.cons.inj h).1 (by decide)
  have hplain : ∀ written ∈ [analysis, output], written.IsPlain := by
    rw [List.forall_mem_cons, List.forall_mem_singleton]
    exact ⟨Block.isPlain_scanned _ _, Block.isPlain_scanned _ _⟩
  have hnames : ["analysis", "output"].Nodup := by decide
  rw [read, hdocument.read_eq hmark, Document.tree_of_isPlain hplain hnames]
  change ofFields [analysis.field, output.field] = .ok s
  exact ofFields_scanned htotal hbudget _

/-- Settings cannot be written exactly if a count is too large for the format. What is written is
read back to the same settings if they are valid. If they are not, what validation says of them is
what reading the text says: also a minimum that is no number, or none that is finite, is a value of
the format, so it is not the text that is at fault. -/
theorem toText_round_trip (s : Settings) :
    ((∃ error, s.toText = .error error) ↔
        ∃ n, 2 ^ 63 - 1 < n ∧ (s.totalClasses = some n ∨ s.stepBudget = some n)) ∧
      (∀ error, s.toText = .error error → ∃ detail, error = .unreadable detail) ∧
      ∀ text, s.toText = .ok text →
        (s.validate = .ok () → ofText text = .ok s) ∧
        (∀ fault, s.validate = .error fault → ofText text = .error (.invalid fault.message)) ∧
        (s.IsInvalid → ∃ reason, ofText text = .error (.invalid reason)) := by
  refine ⟨?_, ?_, ?_⟩
  · have hlarge : (∃ n, 2 ^ 63 - 1 < n ∧ (s.totalClasses = some n ∨ s.stepBudget = some n)) ↔
        fits s.totalClasses = false ∨ fits s.stepBudget = false := by
      simp only [fits_eq_false_iff, and_or_left, exists_or]
    rw [hlarge]
    rcases s.toText_cases with ⟨hlarge, detail, herror⟩ | ⟨⟨htotal, hbudget⟩, text, hok⟩
    · simp [hlarge, herror]
    · simp [htotal, hbudget, hok]
  · intro error herror
    rcases s.toText_cases with ⟨-, detail, hdetail⟩ | ⟨-, text, hok⟩
    · exact ⟨detail, (Except.error.inj (herror.symm.trans hdetail))⟩
    · rw [hok] at herror
      cases herror
  · intro text htext
    have hread : ofText text = s.checked := by rw [ofText, read_toText htext]
    have hfault (fault : InvalidSetting) (h : s.validate = .error fault) :
        ofText text = .error (.invalid fault.message) := by rw [hread, checked, h]
    refine ⟨fun h => by rw [hread, checked, h], hfault, fun hinvalid => ?_⟩
    rcases s.validate_cases with ⟨-, fault, h⟩ | ⟨hvalid, -⟩
    · exact ⟨_, hfault fault h⟩
    · exact absurd hinvalid hvalid

/-- The texts of the standard settings, and of settings that no run may have. -/
theorem toText_round_trip_standard_and_invalid :
    let invalid : Settings := ⟨.nan, some 3, some 0, false⟩
    let text := "[analysis]\nmin_coupling_average = 1.0\n\n[output]\ninclude_isolated = true\n"
    let invalidText := "[analysis]\nmin_coupling_average = nan\ntotal_classes = 3\n" ++
      "step_budget = 0\n\n[output]\ninclude_isolated = false\n"
    (standard.toText = .ok text ∧ ofText text = .ok standard) ∧
      invalid.toText = .ok invalidText ∧
        ∃ reason, ofText invalidText = .error (.invalid reason) := by
  intro invalid text invalidText
  have hstandard : standard.toText = .ok text := by decide +kernel
  have hinvalid : invalid.toText = .ok invalidText := by decide +kernel
  refine ⟨⟨hstandard, ?_⟩, hinvalid, ?_⟩
  · exact ((toText_round_trip standard).2.2 text hstandard).1 (by decide +kernel)
  · exact ((toText_round_trip invalid).2.2 invalidText hinvalid).2.2 (Or.inl (Or.inl rfl))

end ModuleRecovery.Settings
