import Mathlib.Tactic.SplitIfs
import ModuleRecovery.Json.Graphs
import ModuleRecovery.Proofs.Clusters
import ModuleRecovery.Proofs.Json.Documents
import ModuleRecovery.Proofs.Json.Numbers
import ModuleRecovery.Proofs.Tables

/-!
Values in documents. Escaping a text loses nothing, whatever its characters, and the parts that
records and tables are built of, taken out of the document they were put in, are what they were.
A kind of values is lossless in this way if its counts fit into 64 bits and its numbers are finite
and read back from their digits; what is taken out of a document always fits. Main statement: a
lossless kind of values survives its text.
-/

namespace ModuleRecovery

namespace Json

/-! ## Texts -/

theorem unescape?_letter (letter c : Char) (rest : List Char) (hu : letter ≠ 'u')
    (hletter : unescapeLetter? letter = some c) :
    unescape? ('\\' :: letter :: rest) = (unescape? rest).map (c :: ·) := by
  rw [unescape?]
  · simp [hletter]
  · rintro a b c d rest rfl
    simp_all

theorem unescape?_plain {c : Char} (hc : c ≠ '\\') (rest : List Char) :
    unescape? (c :: rest) = (unescape? rest).map (c :: ·) := by
  rw [unescape?]
  · simp [hc]
  · simp [hc]

theorem unescape?_control {c : Char} (hc : c.toNat < 32) (rest : List Char) :
    unescape? ('\\' :: 'u' :: '0' :: '0' :: hexDigit (c.toNat / 16) :: hexDigit (c.toNat % 16) ::
      rest) = (unescape? rest).map (c :: ·) := by
  have hnumber : ∀ n < 32, hexNumber ['0', '0', hexDigit (n / 16), hexDigit (n % 16)] = n := by
    decide
  have hleading : isLeadingHalf c.toNat = false := by
    simp only [isLeadingHalf, Bool.and_eq_false_iff, decide_eq_false_iff_not]
    omega
  have htrailing : isTrailingHalf c.toNat = false := by
    simp only [isTrailingHalf, Bool.and_eq_false_iff, decide_eq_false_iff_not]
    omega
  rw [unescape?.eq_def]
  simp only [hnumber _ hc, hleading, htrailing, Char.ofNat_toNat]
  rfl

/-- An escaped character stands for itself, whatever follows it. -/
theorem unescape?_escapeChar (c : Char) (rest : List Char) :
    unescape? (escapeChar c ++ rest) = (unescape? rest).map (c :: ·) := by
  unfold escapeChar
  split_ifs with hquote hbackslash hb ht hn hf hr hcontrol
  · exact unescape?_letter '"' c rest (by decide) (by rw [hquote]; rfl)
  · exact unescape?_letter '\\' c rest (by decide) (by rw [hbackslash]; rfl)
  · exact unescape?_letter 'b' c rest (by decide) (by rw [hb]; rfl)
  · exact unescape?_letter 't' c rest (by decide) (by rw [ht]; rfl)
  · exact unescape?_letter 'n' c rest (by decide) (by rw [hn]; rfl)
  · exact unescape?_letter 'f' c rest (by decide) (by rw [hf]; rfl)
  · exact unescape?_letter 'r' c rest (by decide) (by rw [hr]; rfl)
  · exact unescape?_control hcontrol rest
  · exact unescape?_plain hbackslash rest

theorem unescape?_escape (text : String) : unescape? (escape text) = some text.toList := by
  rw [escape]
  induction text.toList with
  | nil => rw [List.flatMap_nil, unescape?]
  | cons c rest ih => rw [List.flatMap_cons, unescape?_escapeChar, ih, Option.map_some]

/-- Escaping loses nothing. -/
@[simp] theorem text?_escape (text : String) : text? (escape text) = some text := by
  rw [text?, unescape?_escape, Option.map_some, String.ofList_toList]

/-! ## Lists and fields -/

/-- Items that are taken back one by one are taken back as a list. -/
theorem mapM_map_eq_some {α β : Type} {encode : α → β} {decode : β → Option α} {values : List α}
    (h : ∀ value ∈ values, decode (encode value) = some value) :
    (values.map encode).mapM decode = some values := by
  induction values with
  | nil => rfl
  | cons value rest ih =>
      obtain ⟨hvalue, hrest⟩ := List.forall_mem_cons.1 h
      simp [hvalue, ih hrest]

/-- What is taken as a list is taken item by item. -/
theorem exists_of_mem_of_mapM {α β : Type} {decode : β → Option α} {items : List β}
    {values : List α} (h : items.mapM decode = some values) {value : α} (hvalue : value ∈ values) :
    ∃ item ∈ items, decode item = some value := by
  induction items generalizing values with
  | nil =>
      cases h
      cases hvalue
  | cons item rest ih =>
      simp only [List.mapM_cons, Option.bind_eq_bind, Option.bind_eq_some_iff, Option.pure_def,
        Option.some.injEq] at h
      obtain ⟨first, hfirst, more, hmore, rfl⟩ := h
      rcases List.mem_cons.1 hvalue with rfl | hvalue
      · exact ⟨item, List.mem_cons_self, hfirst⟩
      · obtain ⟨item, hitem, hdecode⟩ := ih hmore hvalue
        exact ⟨item, List.mem_cons_of_mem _ hitem, hdecode⟩

@[simp] theorem asText?_ofText (text : String) : asText? (ofText text) = some text := text?_escape text

@[simp] theorem asCount?_ofNat {n : Nat} (h : n ≤ largestWord) : asCount? (ofNat n) = some n :=
  count?_toDigits h

theorem asBinary64?_ofBinary64 {x : Binary64} (hfinite : x.isFinite = true) (hreads : x.ReadsBack) :
    asBinary64? (ofBinary64 x) = some x := by
  rw [ofBinary64, if_pos hfinite]
  exact hreads hfinite

@[simp] theorem asList?_ofTexts (texts : List String) : asList? asText? (ofTexts texts) = some texts :=
  mapM_map_eq_some fun text _ => asText?_ofText text

@[simp] theorem entries?_ofFields (fields : List (String × Json)) :
    (ofFields fields).entries? = some fields :=
  mapM_map_eq_some fun field _ => by simp

theorem isUnique_of_nodup {fields : List (String × Json)} (h : (fields.map Prod.fst).Nodup)
    (name : String) : isUnique fields name = true := by
  have hcount := List.nodup_iff_count_le_one.1 h name
  rw [List.count_eq_length_filter, List.filter_map, List.length_map] at hcount
  exact decide_eq_true hcount

/-- The fields of a record are found in the object of them. -/
theorem record?_ofFields {fields : List (String × Json)} (h : (fields.map Prod.fst).Nodup)
    (names : List String) (required : Nat) :
    record? names required (ofFields fields) = some fields := by
  have hunique : names.all (isUnique fields) = true :=
    List.all_eq_true.2 fun name _ => isUnique_of_nodup h name
  have hentries := entries?_ofFields fields
  rw [ofFields] at hentries ⊢
  simp only [record?, hentries, Option.bind_eq_bind, Option.bind_some, hunique, if_true]

theorem mapM_entries {β : Type} {encode : β → Json} {decode : Json → Option β}
    {entries : List (String × β)}
    (h : ∀ entry ∈ entries, decode (encode entry.2) = some entry.2) :
    (entries.map fun (name, value) => (name, encode value)).mapM
      (fun (name, value) => (decode value).map fun value => (name, value)) = some entries :=
  mapM_map_eq_some fun entry hentry => by simp [h entry hentry]

/-- A table is taken back from its entries, whatever their order. -/
theorem asTable?_ofFields {β : Type} {encode : β → Json} {decode : Json → Option β} {t : Table β}
    {entries : List (String × β)} (hentries : entries.Perm t.entries)
    (h : ∀ entry ∈ entries, decode (encode entry.2) = some entry.2) :
    asTable? decode (ofFields (entries.map fun (name, value) => (name, encode value))) =
      some t := by
  simp only [asTable?, entries?_ofFields, Option.bind_eq_bind, Option.bind_some, mapM_entries h,
    Table.ofList_of_perm hentries, Option.pure_def]

@[simp] theorem field?_cons_self {α : Type} {decode : Json → Option α} (name : String) (j : Json)
    (rest : List (String × Json)) : field? ((name, j) :: rest) name decode = decode j := by
  rw [field?, List.lookup_cons_self, Option.bind_some]

@[simp] theorem field?_cons_of_ne {α : Type} {decode : Json → Option α} {name other : String}
    (h : name ≠ other) (j : Json) (rest : List (String × Json)) :
    field? ((other, j) :: rest) name decode = field? rest name decode := by
  simp [field?, List.lookup_cons, beq_eq_false_iff_ne.2 h]

theorem optionalField?_cons_self {α : Type} {decode : Json → Option α} {j : Json} {value : α}
    (hnull : decode .null = none) (h : decode j = some value) (name : String)
    (rest : List (String × Json)) :
    optionalField? ((name, j) :: rest) name decode = some (some value) := by
  rw [optionalField?, List.lookup_cons_self]
  split
  · contradiction
  · rename_i heq
    rw [Option.some.inj heq, hnull] at h
    cases h
  · rename_i heq
    rw [← Option.some.inj heq, h, Option.map_some]

@[simp] theorem optionalField?_cons_of_ne {α : Type} {decode : Json → Option α} {name other : String}
    (h : name ≠ other) (j : Json) (rest : List (String × Json)) :
    optionalField? ((other, j) :: rest) name decode = optionalField? rest name decode := by
  simp [optionalField?, List.lookup_cons, beq_eq_false_iff_ne.2 h]

/-- What is found in a field was taken from some document. -/
theorem exists_of_field? {α : Type} {fields : List (String × Json)} {name : String}
    {decode : Json → Option α} {value : α} (h : field? fields name decode = some value) :
    ∃ j, decode j = some value := by
  obtain ⟨j, -, hdecode⟩ := Option.bind_eq_some_iff.1 h
  exact ⟨j, hdecode⟩

theorem exists_of_optionalField? {α : Type} {fields : List (String × Json)} {name : String}
    {decode : Json → Option α} {value : α}
    (h : optionalField? fields name decode = some (some value)) : ∃ j, decode j = some value := by
  unfold optionalField? at h
  split at h
  · cases h
  · cases h
  · rename_i j _ _
    exact ⟨j, by simpa using h⟩

/-! ## Meanings -/

@[simp] theorem isMeaningful_ofText (room : Nat) (text : String) :
    isMeaningful room (ofText text) = true := by
  simp [ofText, isMeaningful]

theorem isMeaningful_ofNat (room : Nat) {n : Nat} (h : n ≤ largestWord) :
    isMeaningful room (ofNat n) = true := by
  simpa [ofNat, isMeaningful] using isSome_binary64?_toDigits h

theorem isMeaningful_ofBinary64 (room : Nat) {x : Binary64} (hfinite : x.isFinite = true)
    (hreads : x.ReadsBack) : isMeaningful room (ofBinary64 x) = true := by
  simp [ofBinary64, hfinite, isMeaningful, hreads hfinite]

theorem haveMeaningful_map {room : Nat} {fields : List (String × Json)}
    (h : ∀ field ∈ fields, isMeaningful room field.2 = true) :
    haveMeaningful room (fields.map fun field => (escape field.1, field.2)) = true := by
  induction fields with
  | nil => rfl
  | cons field rest ih =>
      obtain ⟨hfield, hrest⟩ := List.forall_mem_cons.1 h
      simp [haveMeaningful, hfield, ih hrest]

/-! ## Written documents -/

@[simp] theorem isWritten_ofNat (n : Nat) : IsWritten (ofNat n) := .number (isNumber_toDigits n)

@[simp] theorem isWritten_ofText (text : String) : IsWritten (ofText text) := .string text

@[simp] theorem isWritten_ofBinary64 (x : Binary64) : IsWritten (ofBinary64 x) := by
  unfold ofBinary64
  split
  · rename_i hfinite
    exact .number (isNumber_lay hfinite)
  · exact .null

theorem isWritten_map {α : Type} {encode : α → Json} (h : ∀ value, IsWritten (encode value))
    (values : List α) : IsWritten (.array (values.map encode)) :=
  .array (List.forall_mem_map.2 fun value _ => h value)

@[simp] theorem isWritten_ofTexts (texts : List String) : IsWritten (ofTexts texts) :=
  isWritten_map isWritten_ofText texts

theorem isWritten_ofFields {fields : List (String × Json)}
    (h : ∀ field ∈ fields, IsWritten field.2) : IsWritten (ofFields fields) :=
  .object (List.forall_mem_map.2 fun field _ => ⟨field.1, rfl⟩) (List.forall_mem_map.2 h)

end Json

/-! ## Kinds of values -/

/-- A count or a number inside a value. -/
inductive Figure where
  | count (n : Nat)
  | number (x : Binary64)

namespace Figure

/-- A count fits into 64 bits and a number is finite. -/
def Fits : Figure → Prop
  | count n => n ≤ Json.largestWord
  | number x => x.isFinite = true

/-- Every count does; of a number it is what is asked of its digits. -/
def ReadsBack : Figure → Prop
  | count _ => True
  | number x => x.ReadsBack

instance (f : Figure) : Decidable f.Fits :=
  match f with
  | count n => inferInstanceAs (Decidable (n ≤ Json.largestWord))
  | number x => inferInstanceAs (Decidable (x.isFinite = true))

instance (f : Figure) : Decidable f.ReadsBack :=
  match f with
  | count _ => inferInstanceAs (Decidable True)
  | number x => inferInstanceAs (Decidable x.ReadsBack)

@[simp] theorem fits_count {n : Nat} : (count n).Fits ↔ n ≤ Json.largestWord := Iff.rfl

@[simp] theorem fits_number {x : Binary64} : (number x).Fits ↔ x.isFinite = true := Iff.rfl

@[simp] theorem readsBack_number {x : Binary64} : (number x).ReadsBack ↔ x.ReadsBack := Iff.rfl

end Figure

namespace Json

/-- Values of one kind are taken back from their document if the figures in them fit, and the
figures of a value that is taken from any document do fit. -/
structure Lossless {α : Type} (encode : α → Json) (decode : Json → Option α)
    (figures : α → List Figure) : Prop where
  isWritten : ∀ value, IsWritten (encode value)
  decode_encode : ∀ value, (∀ f ∈ figures value, f.Fits) → (∀ f ∈ figures value, f.ReadsBack) →
    decode (encode value) = some value
  fits : ∀ j value, decode j = some value → ∀ f ∈ figures value, f.Fits

theorem lossless_count : Lossless ofNat asCount? fun n => [.count n] where
  isWritten := isWritten_ofNat
  decode_encode := fun n hfits _ => asCount?_ofNat (hfits _ List.mem_cons_self)
  fits := by
    intro j n h f hf
    rw [List.mem_singleton.1 hf]
    cases j with
    | number literal => exact le_of_count? h
    | _ => cases h

theorem lossless_number : Lossless ofBinary64 asBinary64? fun x => [.number x] where
  isWritten := isWritten_ofBinary64
  decode_encode := fun x hfits hreads =>
    asBinary64?_ofBinary64 (hfits _ List.mem_cons_self) (hreads _ List.mem_cons_self)
  fits := by
    intro j x h f hf
    rw [List.mem_singleton.1 hf]
    cases j with
    | number literal => exact isFinite_of_binary64? h
    | _ => cases h

theorem lossless_names : Lossless NameSet.toJson asNameSet? fun _ => [] where
  isWritten := fun names => isWritten_ofTexts names.toList
  decode_encode := by
    intro names _ _
    have hlist : asList? asText? names.toJson = some names.toList := asList?_ofTexts names.toList
    have hset : NameSet.ofList names.toList = names :=
      NameSet.eq_of_mem_iff fun _ => NameSet.mem_ofList
    rw [asNameSet?, hlist, Option.map_some, hset]
  fits := by simp

namespace Lossless

variable {α : Type} {encode : α → Json} {decode : Json → Option α} {figures : α → List Figure}

theorem list (h : Lossless encode decode figures) :
    Lossless (fun values => .array (values.map encode)) (asList? decode) (·.flatMap figures) where
  isWritten := isWritten_map h.isWritten
  decode_encode := by
    intro values hfits hreads
    refine mapM_map_eq_some fun value hvalue => h.decode_encode value ?_ ?_
    · intro f hf
      exact hfits f (List.mem_flatMap_of_mem hvalue hf)
    · intro f hf
      exact hreads f (List.mem_flatMap_of_mem hvalue hf)
  fits := by
    intro j values hdecode f hf
    obtain ⟨value, hvalue, hf⟩ := List.mem_flatMap.1 hf
    cases j with
    | array items =>
        obtain ⟨item, -, hitem⟩ := exists_of_mem_of_mapM hdecode hvalue
        exact h.fits item value hitem f hf
    | _ => cases hdecode

/-- The figures of a value that is found in a field fit. -/
theorem fits_of_field? (h : Lossless encode decode figures) {fields : List (String × Json)}
    {name : String} {value : α} (hfield : field? fields name decode = some value) :
    ∀ f ∈ figures value, f.Fits := by
  obtain ⟨j, hdecode⟩ := exists_of_field? hfield
  exact h.fits j value hdecode

end Lossless

theorem le_of_field? {fields : List (String × Json)} {name : String} {n : Nat}
    (h : field? fields name asCount? = some n) : n ≤ largestWord :=
  lossless_count.fits_of_field? h _ List.mem_cons_self

theorem isFinite_of_field? {fields : List (String × Json)} {name : String} {x : Binary64}
    (h : field? fields name asBinary64? = some x) : x.isFinite = true :=
  lossless_number.fits_of_field? h _ List.mem_cons_self

/-- A value survives its text. -/
theorem Lossless.read?_write {α : Type} {encode : α → Json} {decode : Json → Option α}
    {figures : α → List Figure} (h : Lossless encode decode figures) {s : Spacing}
    (hs : s.IsBlank) {value : α}
    (hfits : ∀ f ∈ figures value, f.Fits) (hreads : ∀ f ∈ figures value, f.ReadsBack) :
    (read? (write s (encode value))).bind decode = some value := by
  rw [Json.read?_write hs (h.isWritten value), Option.bind_some]
  exact h.decode_encode value hfits hreads

end Json

end ModuleRecovery
