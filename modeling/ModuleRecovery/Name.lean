/-!
Names of classes and methods, their order by code point, and finite sets of names.
-/

namespace ModuleRecovery

/-- The name of a class, the unit that is clustered. -/
abbrev ClassName := String

/-- The full name of a method, by habit `Class.method`. -/
abbrev MethodName := String

theorem name_lt_of_not_lt_of_ne {a b : String} (h : ¬a < b) (hne : b ≠ a) : b < a := by
  rcases Classical.em (b < a) with hlt | hge
  · exact hlt
  · exact absurd (String.le_antisymm (String.not_lt.1 h) (String.not_lt.1 hge)) hne

/-- A finite set of names. -/
structure NameSet where
  toList : List String
  sorted : toList.Pairwise (· < ·)
  deriving DecidableEq, Repr

namespace NameSet

/-- Puts `name` in its place in the order, once. -/
def place (name : String) : List String → List String
  | [] => [name]
  | n :: rest =>
      if name < n then name :: n :: rest else if n = name then n :: rest else n :: place name rest

theorem mem_place {name x : String} {names : List String} :
    x ∈ place name names ↔ x = name ∨ x ∈ names := by
  induction names with
  | nil => simp [place]
  | cons n rest ih =>
      simp only [place]
      split
      · simp
      · split
        · rename_i _ heq; subst heq; simp
        · simp only [List.mem_cons, ih]
          exact ⟨fun h => by rcases h with h | h | h <;> simp [h],
            fun h => by rcases h with h | h | h <;> simp [h]⟩

theorem place_sorted {name : String} {names : List String} (h : names.Pairwise (· < ·)) :
    (place name names).Pairwise (· < ·) := by
  induction names with
  | nil => simp [place]
  | cons n rest ih =>
      obtain ⟨hn, hrest⟩ := List.pairwise_cons.1 h
      simp only [place]
      split
      · rename_i hlt
        refine List.pairwise_cons.2 ⟨fun e he => ?_, h⟩
        rcases List.mem_cons.1 he with he | he
        · rw [he]; exact hlt
        · exact String.lt_trans hlt (hn e he)
      · split
        · exact h
        · rename_i hge hne
          refine List.pairwise_cons.2 ⟨fun e he => ?_, ih hrest⟩
          rcases mem_place.1 he with he | he
          · rw [he]; exact name_lt_of_not_lt_of_ne hge hne
          · exact hn e he

def empty : NameSet := ⟨[], List.Pairwise.nil⟩

instance : Inhabited NameSet := ⟨empty⟩

instance : Membership String NameSet := ⟨fun s name => name ∈ s.toList⟩

instance (name : String) (s : NameSet) : Decidable (name ∈ s) :=
  inferInstanceAs (Decidable (name ∈ s.toList))

def size (s : NameSet) : Nat := s.toList.length

def insert (s : NameSet) (name : String) : NameSet := ⟨place name s.toList, place_sorted s.sorted⟩

def singleton (name : String) : NameSet := empty.insert name

/-- The set of the listed names, whatever their order and repeats. -/
def ofList (names : List String) : NameSet := names.foldl insert empty

def union (s t : NameSet) : NameSet := t.toList.foldl insert s

theorem mem_insert {s : NameSet} {name x : String} : x ∈ s.insert name ↔ x = name ∨ x ∈ s :=
  mem_place

theorem mem_foldl_insert {names : List String} {s : NameSet} {x : String} :
    x ∈ names.foldl insert s ↔ x ∈ names ∨ x ∈ s := by
  induction names generalizing s with
  | nil => simp
  | cons n rest ih =>
      rw [List.foldl_cons, ih, mem_insert, List.mem_cons]
      exact ⟨fun h => by rcases h with h | h | h <;> simp [h],
        fun h => by rcases h with (h | h) | h <;> simp [h]⟩

theorem mem_union {s t : NameSet} {x : String} : x ∈ s.union t ↔ x ∈ s ∨ x ∈ t := by
  rw [union, mem_foldl_insert]
  exact Or.comm

theorem mem_ofList {names : List String} {x : String} : x ∈ ofList names ↔ x ∈ names := by
  rw [ofList, mem_foldl_insert]
  exact ⟨fun h => h.resolve_right (fun h => absurd h (List.not_mem_nil)), Or.inl⟩

end NameSet

end ModuleRecovery
