import ModuleRecovery.Proofs.Toml.Scalars

/-!
Documents of sections with one setting on a line. `IsDocument` relates a text to the lines and
sections that are scanned from it, whatever the bound on their number; a line, a header and a line
end in front of a text each add to what it consists of. Main statements: what consists of sections
with names of their own has the tree that holds them in their order.
-/

namespace ModuleRecovery.Toml

variable {text rest : List Char} {name : String} {d : Char}

/-! ## Trees -/

/-- The field that a line makes. -/
def Pair.field (p : Pair) : KeyPart × Located Item := (p.key.last, p.item)

/-- The table that a section makes. -/
def Section.field (s : Section) : KeyPart × Located Item :=
  (s.header.key.last, ⟨some s.header.place, .table .opened (s.lines.map Pair.field)⟩)

/-- The names of fields. -/
def Fields.names (fields : Fields) : List String := fields.map (·.1.name)

namespace Fields

theorem get?_eq_none {fields : Fields} (h : name ∉ fields.names) : fields.get? name = none := by
  rw [get?, List.find?_eq_none.2, Option.map_none]
  intro field hfield hname
  exact h (List.mem_map.2 ⟨field, hfield, of_decide_eq_true hname⟩)

/-- What adds one field after the other adds all of them, in their order, if no name is taken. -/
theorem foldlM_of_nodup {α : Type} {add : Fields → α → Except Fault Fields}
    (field : α → KeyPart × Located Item) {items : List α}
    (hadd : ∀ a ∈ items, ∀ fields : Fields, (field a).1.name ∉ fields.names →
      add fields a = .ok (fields ++ [field a]))
    (fields : Fields) (hnodup : (fields ++ items.map field).names.Nodup) :
    items.foldlM add fields = .ok (fields ++ items.map field) := by
  induction items generalizing fields with
  | nil =>
      rw [List.map_nil, List.append_nil]
      rfl
  | cons a items ih =>
      obtain ⟨ha, hitems⟩ := List.forall_mem_cons.1 hadd
      have hsplit : fields ++ (a :: items).map field =
          (fields ++ [field a]) ++ items.map field := by simp
      rw [hsplit] at hnodup ⊢
      -- Only the names up to that of `a` matter for it; those behind are left to the induction.
      have hnew : (field a).1.name ∉ fields.names := by
        intro hmem
        have hboth : (fields ++ [field a]).names.Nodup := by
          rw [names, List.map_append] at hnodup
          exact (List.nodup_append.1 hnodup).1
        rw [names, List.map_append, List.nodup_append] at hboth
        exact hboth.2.2 _ hmem _ (List.mem_singleton_self _) rfl
      rw [List.foldlM_cons, ha fields hnew]
      exact ih hitems _ hnodup

/-- Lines with names of their own are put into an empty table in their order. -/
theorem putAll_of_nodup {pairs : List Pair} (hparents : ∀ p ∈ pairs, p.key.parents = [])
    (hnodup : (pairs.map fun p => p.key.last.name).Nodup) (table : Option (List String)) :
    putAll table [] pairs = .ok (pairs.map Pair.field) := by
  refine foldlM_of_nodup Pair.field (fun p hp fields hnew => ?_) [] ?_
  · have hnone : fields.get? p.key.last.name = none := get?_eq_none hnew
    simp [hparents p hp, put, hnone, Except.mapError, Pair.field]
  · rw [names, List.nil_append, List.map_map]
    exact hnodup

end Fields

/-- A section under a header in single brackets. Its name is no path, and neither are those of its
lines, which are all different. -/
structure Section.IsPlain (s : Section) : Prop where
  repeated_eq : s.header.repeated = false
  parents_header : s.header.key.parents = []
  parents_lines : ∀ p ∈ s.lines, p.key.parents = []
  nodup : (s.lines.map fun p => p.key.last.name).Nodup

theorem Section.addTo_of_isPlain {s : Section} (hplain : s.IsPlain) {root : Fields}
    (hnew : s.header.key.last.name ∉ root.names) : s.addTo root = .ok (root ++ [s.field]) := by
  have hfill := Fields.putAll_of_nodup hplain.parents_lines hplain.nodup (some s.header.key.names)
  simp only [addTo, hplain.parents_header, Fields.within, enter, hplain.repeated_eq,
    Fields.get?_eq_none hnew, hfill]
  rfl

/-- The tree of sections with names of their own holds them in their order. -/
theorem Document.tree_of_isPlain {sections : List Section} (hplain : ∀ s ∈ sections, s.IsPlain)
    (hnodup : (sections.map fun s => s.header.key.last.name).Nodup) :
    Document.tree ⟨[], sections⟩ = .ok (sections.map Section.field) := by
  refine Fields.foldlM_of_nodup Section.field
    (fun s hs root hnew => Section.addTo_of_isPlain (hplain s hs) hnew) [] ?_
  rw [Fields.names, List.nil_append, List.map_map]
  exact hnodup

/-! ## Keys -/

/-- A name that needs no quotes in a key. -/
structure IsBare (name : String) : Prop where
  ne_nil : name.toList ≠ []
  isBareKey : ∀ c ∈ name.toList, isBareKey c = true

instance (name : String) : Decidable (IsBare name) :=
  decidable_of_iff (name.toList ≠ [] ∧ name.toList.all isBareKey = true)
    ⟨fun h => ⟨h.1, List.all_eq_true.1 h.2⟩, fun h => ⟨h.ne_nil, List.all_eq_true.2 h.isBareKey⟩⟩

/-- The key that is a single name, at its place. -/
def Key.single (name : String) (place : Place) : Key := ⟨[], ⟨name, place⟩⟩

theorem IsBare.exists_cons (h : IsBare name) :
    ∃ c more, name.toList = c :: more ∧ Toml.isBareKey c = true := by
  obtain ⟨c, more, hname⟩ := List.exists_cons_of_ne_nil h.ne_nil
  exact ⟨c, more, hname, h.isBareKey c (hname ▸ List.mem_cons_self)⟩

theorem isBlank_of_isBareKey {c : Char} (hc : isBareKey c = true) : isBlank c = false := by
  simp [isBlank, ne_of_kind hc (d := ' ') rfl, ne_of_kind hc (d := '\t') rfl]

theorem IsBare.skipBlanks_append (h : IsBare name) (rest : List Char) :
    skipBlanks (name.toList ++ rest) = name.toList ++ rest := by
  obtain ⟨c, more, hname, hc⟩ := h.exists_cons
  rw [hname]
  exact List.dropWhile_cons_of_neg (by simp [isBlank_of_isBareKey hc])

theorem IsBare.skipFiller_append (h : IsBare name) (rest : List Char) :
    skipFiller false (name.toList ++ rest) = name.toList ++ rest := by
  obtain ⟨c, more, hname, hc⟩ := h.exists_cons
  have hhash : c ≠ '#' := ne_of_kind hc rfl
  rw [hname, List.cons_append, skipFiller]
  · simp [isBlank_of_isBareKey hc, hhash]
  · exact ne_of_kind hc rfl
  · exact fun _ h => absurd h (ne_of_kind hc rfl)

theorem scanKeyPart_append (h : IsBare name) (hd : isBareKey d = false) (rest : List Char) :
    scanKeyPart (name.toList ++ d :: rest) =
      .ok (some (⟨name, name.toList ++ d :: rest⟩, d :: rest)) := by
  have htake : (name.toList ++ d :: rest).takeWhile isBareKey = name.toList := by
    rw [List.takeWhile_append_of_pos h.isBareKey, List.takeWhile_cons_of_neg (by simp [hd]),
      List.append_nil]
  have hdrop : (name.toList ++ d :: rest).dropWhile isBareKey = d :: rest := by
    rw [List.dropWhile_append_of_pos h.isBareKey, List.dropWhile_cons_of_neg (by simp [hd])]
  obtain ⟨c, more, hname, hc⟩ := h.exists_cons
  rw [scanKeyPart]
  · simp [htake, hdrop, h.ne_nil]
  · rw [hname]
    exact fun _ h => ne_of_kind hc (d := '"') rfl (List.cons.inj h).1
  · rw [hname]
    exact fun _ h => ne_of_kind hc (d := '\'') rfl (List.cons.inj h).1

/-- A bare name is a key of its own, unless a dot follows. -/
theorem scanKey_append (h : IsBare name) (hd : isBareKey d = false)
    (hdot : ∀ after, skipBlanks (d :: rest) ≠ '.' :: after) :
    scanKey (name.toList ++ d :: rest) =
      .ok (some (.single name (name.toList ++ d :: rest), skipBlanks (d :: rest))) := by
  have hparts (bound : Nat) : scanParts (bound + 1) (name.toList ++ d :: rest) =
      .ok (some (.single name (name.toList ++ d :: rest), skipBlanks (d :: rest))) := by
    rw [scanParts, h.skipBlanks_append, scanKeyPart_append h hd]
    simp only [bind, Except.bind]
    rfl
  rw [scanKey, hparts]
  rfl

/-! ## Lines -/

/-- A line with a setting: its name, and the characters that are read as its value. -/
structure Entry where
  name : String
  literal : List Char
  item : Item
  isBare : IsBare name
  readsAs : ReadsAs literal item

namespace Entry

/-- The line, in front of the rest of the text. -/
def lay (e : Entry) (rest : List Char) : List Char :=
  e.name.toList ++ ' ' :: '=' :: ' ' :: (e.literal ++ '\n' :: rest)

/-- What is scanned from the line. -/
def pair (e : Entry) (rest : List Char) : Pair :=
  ⟨.single e.name (e.lay rest), ⟨some (e.literal ++ '\n' :: rest), e.item⟩⟩

theorem length_lay (e : Entry) (rest : List Char) : rest.length < (e.lay rest).length := by
  simp only [lay, List.length_append, List.length_cons]
  omega

theorem scanPair_lay (e : Entry) (rest : List Char) :
    scanPair (scanItem nestingLimit) (e.lay rest) = .ok (some (e.pair rest, '\n' :: rest)) := by
  obtain ⟨hblanks, hitem⟩ := e.readsAs rest
  have hkey : scanKey (e.lay rest) =
      .ok (some (.single e.name (e.lay rest), '=' :: ' ' :: (e.literal ++ '\n' :: rest))) :=
    scanKey_append e.isBare rfl fun _ h => absurd (List.cons.inj h).1 (by decide)
  have hplace : skipBlanks (' ' :: (e.literal ++ '\n' :: rest)) = e.literal ++ '\n' :: rest :=
    hblanks
  simp only [scanPair, hkey, skipWord?, expect, hplace, hitem, bind, Except.bind, if_true]
  rfl

theorem scanLine_lay (e : Entry) (rest : List Char) :
    scanLine (e.lay rest) = .ok (.pair (e.pair rest), rest) := by
  have hstatement : scanStatement (e.lay rest) = .ok (.pair (e.pair rest), '\n' :: rest) := by
    have hpair := e.scanPair_lay rest
    obtain ⟨c, more, hname, hc⟩ := e.isBare.exists_cons
    have hbracket (tail : List Char) : e.lay rest ≠ '[' :: tail := by
      rw [lay, hname]
      exact fun h => ne_of_kind hc rfl (List.cons.inj h).1
    rw [scanStatement]
    · rw [hpair]
      rfl
    · exact fun _ => hbracket _
    · exact fun _ => hbracket _
  rw [scanLine, hstatement]
  rfl

end Entry

/-! ## Sections -/

/-- A section under a header: its name, and the lines below, no two of which have the same name. -/
structure Block where
  name : String
  entries : List Entry
  isBare : IsBare name
  nodup : (entries.map (·.name)).Nodup

namespace Block

/-- The lines of a section, in front of the rest of the text. -/
def layEntries (entries : List Entry) (rest : List Char) : List Char := entries.foldr Entry.lay rest

/-- What is scanned from the lines. -/
def pairs : List Entry → List Char → List Pair
  | [], _ => []
  | e :: entries, rest => e.pair (layEntries entries rest) :: pairs entries rest

/-- The name and the bracket of a header, in front of the lines. -/
def layName (b : Block) (rest : List Char) : List Char :=
  b.name.toList ++ ']' :: '\n' :: layEntries b.entries rest

/-- The section, in front of the rest of the text. -/
def lay (b : Block) (rest : List Char) : List Char := '[' :: b.layName rest

/-- What is scanned from the section. -/
def scanned (b : Block) (rest : List Char) : Section where
  header := ⟨b.lay rest, false, .single b.name (b.layName rest)⟩
  lines := pairs b.entries rest

theorem map_name_pairs (entries : List Entry) (rest : List Char) :
    (pairs entries rest).map (·.key.last.name) = entries.map (·.name) := by
  induction entries with
  | nil => rfl
  | cons e entries ih => rw [pairs, List.map_cons, ih]; rfl

theorem parents_pairs {entries : List Entry} {p : Pair} (h : p ∈ pairs entries rest) :
    p.key.parents = [] := by
  induction entries with
  | nil => cases h
  | cons e entries ih =>
      rcases List.mem_cons.1 h with rfl | h
      · rfl
      · exact ih h

theorem isPlain_scanned (b : Block) (rest : List Char) : (b.scanned rest).IsPlain where
  repeated_eq := rfl
  parents_header := rfl
  parents_lines := fun _ => parents_pairs
  nodup := by
    change ((pairs b.entries rest).map (·.key.last.name)).Nodup
    rw [map_name_pairs]
    exact b.nodup

theorem scanLine_lay (b : Block) (rest : List Char) :
    scanLine (b.lay rest) = .ok (.header (b.scanned rest).header, layEntries b.entries rest) := by
  have hkey : scanKey (b.layName rest) =
      .ok (some (.single b.name (b.layName rest), ']' :: '\n' :: layEntries b.entries rest)) :=
    scanKey_append b.isBare rfl fun _ h => absurd (List.cons.inj h).1 (by decide)
  have hstatement : scanStatement (b.lay rest) =
      .ok (.header (b.scanned rest).header, '\n' :: layEntries b.entries rest) := by
    obtain ⟨c, more, hname, hc⟩ := b.isBare.exists_cons
    have hbracket (tail : List Char) : b.layName rest ≠ '[' :: tail := by
      rw [layName, hname]
      exact fun h => ne_of_kind hc rfl (List.cons.inj h).1
    rw [lay, scanStatement]
    · rw [scanHeader, scanNeededKey, hkey]
      rfl
    · exact hbracket
  rw [scanLine, hstatement]
  rfl

end Block

/-! ## Texts -/

/-- The lines and sections that a text consists of, whatever the bound on their number. -/
def IsDocument (text : List Char) (d : Document) : Prop :=
  ∀ bound, text.length < bound →
    (statements bound text).2 = none ∧ Document.ofStatements (statements bound text).1 = d

namespace IsDocument

variable {d : Document}

theorem nil : IsDocument [] ⟨[], []⟩ := by
  intro bound hbound
  obtain ⟨bound, rfl⟩ := Nat.exists_eq_add_of_lt hbound
  exact ⟨rfl, rfl⟩

theorem newline (h : IsDocument rest d) : IsDocument ('\n' :: rest) d := by
  intro bound hbound
  obtain ⟨bound, rfl⟩ : ∃ n, bound = n + 1 := ⟨bound - 1, by omega⟩
  exact h (bound + 1) (by simp only [List.length_cons] at hbound; omega)

theorem statements_of_scanLine {statement : Statement} (hstart : skipFiller false text = text)
    (hline : scanLine text = .ok (statement, rest)) (hlt : rest.length < text.length)
    (bound : Nat) :
    statements (bound + 1) text =
      (statement :: (statements bound rest).1, (statements bound rest).2) := by
  obtain ⟨c, more, rfl⟩ : ∃ c more, text = c :: more :=
    List.exists_cons_of_ne_nil (List.length_pos_iff.1 (by omega))
  rw [statements, hstart]
  simp only [hline]

theorem entry (e : Entry) (h : IsDocument rest d) :
    IsDocument (e.lay rest) ⟨e.pair rest :: d.lines, d.sections⟩ := by
  intro bound hbound
  obtain ⟨bound, rfl⟩ : ∃ n, bound = n + 1 := ⟨bound - 1, by omega⟩
  have hlt := e.length_lay rest
  obtain ⟨hfault, hdocument⟩ := h bound (by omega)
  have hstart : skipFiller false (e.lay rest) = e.lay rest := e.isBare.skipFiller_append _
  rw [statements_of_scanLine hstart (e.scanLine_lay rest) hlt]
  subst hdocument
  exact ⟨hfault, rfl⟩

theorem entries (entries : List Entry) (h : IsDocument rest d) :
    IsDocument (Block.layEntries entries rest)
      ⟨Block.pairs entries rest ++ d.lines, d.sections⟩ := by
  induction entries with
  | nil => exact h
  | cons e entries ih => exact ih.entry e

theorem block (b : Block) {sections : List Section} (h : IsDocument rest ⟨[], sections⟩) :
    IsDocument (b.lay rest) ⟨[], b.scanned rest :: sections⟩ := by
  intro bound hbound
  obtain ⟨bound, rfl⟩ : ∃ n, bound = n + 1 := ⟨bound - 1, by omega⟩
  have hlt : (Block.layEntries b.entries rest).length < (b.lay rest).length := by
    simp only [Block.lay, Block.layName, List.length_append, List.length_cons]
    omega
  obtain ⟨hfault, hdocument⟩ := h.entries b.entries bound (by omega)
  rw [statements_of_scanLine rfl (b.scanLine_lay rest) hlt]
  refine ⟨hfault, ?_⟩
  change (⟨[], ⟨(b.scanned rest).header, (Document.ofStatements _).lines⟩ ::
    (Document.ofStatements _).sections⟩ : Document) = _
  rw [hdocument, List.append_nil]
  rfl

theorem read_eq (h : IsDocument text d) (hmark : ∀ rest, text ≠ '\uFEFF' :: rest) :
    read text = d.tree := by
  obtain ⟨hfault, hdocument⟩ := h (text.length + 1) (Nat.lt_succ_self _)
  rw [read]
  · simp only [hdocument, hfault]
    exact bind_pure d.tree
  · exact hmark

end IsDocument

end ModuleRecovery.Toml
