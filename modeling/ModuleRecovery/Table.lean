import ModuleRecovery.Name

/-!
Finite tables keyed by names. The entries are kept in name order, so that two tables with the
same look-ups are equal and every listing of one comes out sorted.
-/

namespace ModuleRecovery

/-- A finite map from names to `β`. -/
structure Table (β : Type) where
  entries : List (String × β)
  sorted : entries.Pairwise (fun a b => a.1 < b.1)
  deriving DecidableEq, Repr

namespace Table

variable {β γ : Type}

/-- The first entry under `key`; in a sorted list the only one. -/
def lookUp (key : String) : List (String × β) → Option β
  | [] => none
  | (k, v) :: rest => if k = key then some v else lookUp key rest

/-- Writes `f` of the old entry under `key`, in its place in the order. -/
def put (key : String) (f : Option β → β) : List (String × β) → List (String × β)
  | [] => [(key, f none)]
  | (k, v) :: rest =>
      if key < k then (key, f none) :: (k, v) :: rest
      else if k = key then (key, f (some v)) :: rest
      else (k, v) :: put key f rest

theorem mem_put {key : String} {f : Option β → β} {entries : List (String × β)}
    {e : String × β} (h : e ∈ put key f entries) : e.1 = key ∨ e ∈ entries := by
  induction entries with
  | nil => exact Or.inl (by simp [put] at h; rw [h])
  | cons x rest ih =>
      obtain ⟨k, v⟩ := x
      simp only [put] at h
      split at h
      · rcases List.mem_cons.1 h with h | h
        · exact Or.inl (by rw [h])
        · exact Or.inr h
      · split at h
        · rcases List.mem_cons.1 h with h | h
          · exact Or.inl (by rw [h])
          · exact Or.inr (List.mem_cons_of_mem _ h)
        · rcases List.mem_cons.1 h with h | h
          · exact Or.inr (h ▸ List.mem_cons_self)
          · exact (ih h).imp id (List.mem_cons_of_mem _)

theorem put_sorted {key : String} {f : Option β → β} {entries : List (String × β)}
    (h : entries.Pairwise (fun a b => a.1 < b.1)) :
    (put key f entries).Pairwise (fun a b => a.1 < b.1) := by
  induction entries with
  | nil => simp [put]
  | cons x rest ih =>
      obtain ⟨k, v⟩ := x
      obtain ⟨hx, hrest⟩ := List.pairwise_cons.1 h
      simp only [put]
      split
      · rename_i hlt
        refine List.pairwise_cons.2 ⟨fun e he => ?_, h⟩
        rcases List.mem_cons.1 he with he | he
        · rw [he]; exact hlt
        · exact String.lt_trans hlt (hx e he)
      · split
        · rename_i _ heq
          exact List.pairwise_cons.2 ⟨fun e he => heq ▸ hx e he, hrest⟩
        · rename_i hge hne
          refine List.pairwise_cons.2 ⟨fun e he => ?_, ih hrest⟩
          rcases mem_put he with he | he
          · rw [he]; exact name_lt_of_not_lt_of_ne hge hne
          · exact hx e he

/-- The table with no entry. -/
def empty : Table β := ⟨[], List.Pairwise.nil⟩

instance : Inhabited (Table β) := ⟨empty⟩

/-- What stands under `key`. -/
def get? (t : Table β) (key : String) : Option β := lookUp key t.entries

def contains (t : Table β) (key : String) : Bool := (t.get? key).isSome

/-- The keys, in name order. -/
def keys (t : Table β) : List String := t.entries.map Prod.fst

def values (t : Table β) : List β := t.entries.map Prod.snd

def size (t : Table β) : Nat := t.entries.length

def isEmpty (t : Table β) : Bool := t.entries.isEmpty

/-- Replaces what stands under `key`, or adds it, by `f` of the old entry. -/
def update (t : Table β) (key : String) (f : Option β → β) : Table β :=
  ⟨put key f t.entries, put_sorted t.sorted⟩

/-- Writes `value` under `key`, over what stood there. -/
def insert (t : Table β) (key : String) (value : β) : Table β := t.update key fun _ => value

/-- Adds `value` under `key` unless the key is there. -/
def insertNew (t : Table β) (key : String) (value : β) : Table β :=
  t.update key fun old => old.getD value

def erase (t : Table β) (key : String) : Table β :=
  ⟨t.entries.filter fun e => e.1 ≠ key, t.sorted.filter _⟩

/-- Applies `f` to every value; the keys stay. -/
def map (f : β → γ) (t : Table β) : Table γ :=
  ⟨t.entries.map fun e => (e.1, f e.2), by simpa [List.pairwise_map] using t.sorted⟩

/-- The table of the pairs; of two values for a key the later one stays. -/
def ofList (pairs : List (String × β)) : Table β :=
  pairs.foldl (fun t e => t.insert e.1 e.2) empty

@[ext] theorem ext {a b : Table β} (h : a.entries = b.entries) : a = b := by
  cases a; cases b; cases h; rfl

theorem lookUp_put (key other : String) (f : Option β → β) (entries : List (String × β))
    (h : entries.Pairwise (fun a b => a.1 < b.1)) :
    lookUp other (put key f entries)
      = if other = key then some (f (lookUp key entries)) else lookUp other entries := by
  induction entries with
  | nil => simp only [put, lookUp, eq_comm]
  | cons x rest ih =>
      obtain ⟨k, v⟩ := x
      obtain ⟨hx, hrest⟩ := List.pairwise_cons.1 h
      have below {name : String} (hlt : name < k) : lookUp name rest = none := by
        clear ih h
        induction rest with
        | nil => rfl
        | cons y more ih =>
            have hne : y.1 ≠ name := fun heq =>
              String.lt_asymm hlt (heq ▸ hx y List.mem_cons_self)
            simp only [lookUp, hne, if_false]
            exact ih (fun e he => hx e (List.mem_cons_of_mem _ he)) (List.pairwise_cons.1 hrest).2
      simp only [put]
      split
      · rename_i hlt
        have hne : k ≠ key := fun heq => String.lt_irrefl _ (heq ▸ hlt)
        simp only [lookUp, hne, if_false, below hlt, @eq_comm _ key other]
      · split
        · rename_i _ heq
          simp only [lookUp, heq, if_true, @eq_comm _ key other]
          split <;> rfl
        · rename_i hge hne
          simp only [lookUp, hne, if_false, ih hrest]
          by_cases hk : k = other
          · have : other ≠ key := hk ▸ hne
            simp [hk, this]
          · simp [hk]

theorem length_put_of_mem {key : String} (f : Option β → β) {entries : List (String × β)}
    (h : entries.Pairwise (fun a b => a.1 < b.1)) (hkey : key ∈ entries.map Prod.fst) :
    (put key f entries).length = entries.length := by
  induction entries with
  | nil => simp at hkey
  | cons x rest ih =>
      obtain ⟨k, v⟩ := x
      obtain ⟨hx, hrest⟩ := List.pairwise_cons.1 h
      simp only [put]
      split
      · rename_i hlt
        rcases List.mem_cons.1 hkey with hk | hk
        · exact absurd (hk ▸ hlt) (String.lt_irrefl _)
        · obtain ⟨e, he, heq⟩ := List.mem_map.1 hk
          exact absurd (String.lt_trans hlt (heq ▸ hx e he)) (String.lt_irrefl _)
      · split
        · simp
        · rename_i hne
          have hk : key ∈ rest.map Prod.fst :=
            (List.mem_cons.1 hkey).resolve_left fun heq => hne heq.symm
          simp [ih hrest hk]

/-- Writing under a key that is there adds no entry. -/
theorem size_insert_of_mem {t : Table β} {key : String} (value : β) (h : key ∈ t.keys) :
    (t.insert key value).size = t.size :=
  length_put_of_mem _ t.sorted h

/-- Taking a key that is there away leaves fewer entries. -/
theorem size_erase_lt {t : Table β} {key : String} (h : key ∈ t.keys) :
    (t.erase key).size < t.size := by
  obtain ⟨e, he, heq⟩ := List.mem_map.1 h
  exact List.length_filter_lt_length_iff_exists.2 ⟨e, he, by simp [heq]⟩

theorem mem_keys_erase {t : Table β} {key other : String} :
    other ∈ (t.erase key).keys ↔ other ∈ t.keys ∧ other ≠ key := by
  simp only [keys, erase, List.mem_map, List.mem_filter, decide_eq_true_eq]
  constructor
  · rintro ⟨e, ⟨he, hne⟩, rfl⟩
    exact ⟨⟨e, he, rfl⟩, hne⟩
  · rintro ⟨⟨e, he, rfl⟩, hne⟩
    exact ⟨e, ⟨he, hne⟩, rfl⟩

theorem get?_update (t : Table β) (key other : String) (f : Option β → β) :
    (t.update key f).get? other = if other = key then some (f (t.get? key)) else t.get? other :=
  lookUp_put key other f t.entries t.sorted

theorem get?_insert (t : Table β) (key other : String) (value : β) :
    (t.insert key value).get? other = if other = key then some value else t.get? other :=
  get?_update t key other _

end Table

end ModuleRecovery
