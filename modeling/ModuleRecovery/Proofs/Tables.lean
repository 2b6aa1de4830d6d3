import Mathlib.Data.List.Sort
import ModuleRecovery.Table

/-!
Look-ups, keys and sizes of tables. The entries of a table are in strict key order, so a key
has one entry at most; everything here follows from that. Main statements: what erasing a key
does to the look-ups, and that it takes away exactly one entry.
-/

namespace ModuleRecovery

/-- Lists in strict order of some name are equal if they have the same members. -/
theorem eq_of_sorted_of_mem_iff {α : Type} {name : α → String} {xs ys : List α}
    (hxs : xs.Pairwise (fun a b => name a < name b))
    (hys : ys.Pairwise (fun a b => name a < name b)) (h : ∀ x, x ∈ xs ↔ x ∈ ys) : xs = ys := by
  have hirrefl : Std.Irrefl fun a b : α => name a < name b := ⟨fun a => String.lt_irrefl (name a)⟩
  have hantisymm : Std.Antisymm fun a b : α => name a < name b :=
    ⟨fun a b hab hba => absurd hab (String.lt_asymm hba)⟩
  exact hxs.eq_of_mem_iff hys h

namespace Table

variable {β γ : Type}

theorem keys_sorted (t : Table β) : t.keys.Pairwise (· < ·) := by
  simpa [keys, List.pairwise_map] using t.sorted

theorem keys_nodup (t : Table β) : t.keys.Nodup := by
  apply t.keys_sorted.imp
  intro a b hlt heq
  exact String.lt_irrefl b (heq ▸ hlt)

theorem entries_nodup (t : Table β) : t.entries.Nodup := t.keys_nodup.of_map Prod.fst

private theorem lookUp_eq_some_iff {key : String} {value : β} {entries : List (String × β)}
    (h : entries.Pairwise (fun a b => a.1 < b.1)) :
    lookUp key entries = some value ↔ (key, value) ∈ entries := by
  induction entries with
  | nil => simp [lookUp]
  | cons e rest ih =>
      obtain ⟨k, v⟩ := e
      obtain ⟨hhead, hrest⟩ := List.pairwise_cons.1 h
      simp only [lookUp, List.mem_cons, Prod.mk.injEq]
      by_cases hk : k = key
      · subst hk
        have hnone : (k, value) ∉ rest := by
          intro hmem
          exact String.lt_irrefl k (hhead _ hmem)
        simp [hnone, eq_comm]
      · rw [if_neg hk, ih hrest]
        simp [Ne.symm hk]

theorem get?_eq_some_iff {t : Table β} {key : String} {value : β} :
    t.get? key = some value ↔ (key, value) ∈ t.entries :=
  lookUp_eq_some_iff t.sorted

theorem mem_keys_iff {t : Table β} {key : String} :
    key ∈ t.keys ↔ ∃ value, t.get? key = some value := by
  simp only [keys, List.mem_map, Prod.exists, get?_eq_some_iff]
  constructor
  · rintro ⟨k, v, hmem, rfl⟩
    exact ⟨v, hmem⟩
  · rintro ⟨v, hmem⟩
    exact ⟨key, v, hmem, rfl⟩

theorem get?_eq_none_iff {t : Table β} {key : String} : t.get? key = none ↔ key ∉ t.keys := by
  rw [mem_keys_iff, Option.eq_none_iff_forall_ne_some, not_exists]

theorem contains_iff {t : Table β} {key : String} : t.contains key = true ↔ key ∈ t.keys := by
  rw [contains, Option.isSome_iff_exists, mem_keys_iff]

theorem get?_empty (key : String) : (empty : Table β).get? key = none := rfl

/-- Tables with the same look-ups are equal. -/
theorem eq_of_get? {t u : Table β} (h : ∀ key, t.get? key = u.get? key) : t = u := by
  apply Table.ext
  apply eq_of_sorted_of_mem_iff t.sorted u.sorted
  rintro ⟨key, value⟩
  rw [← get?_eq_some_iff, ← get?_eq_some_iff, h]

/-- Tables with the same keys are equal if they hold the same value under each. -/
theorem eq_of_mem_keys_iff {t u : Table β} (hkeys : ∀ key, key ∈ t.keys ↔ key ∈ u.keys)
    (hvalue : ∀ key v w, t.get? key = some v → u.get? key = some w → v = w) : t = u := by
  apply eq_of_get?
  intro key
  have hlive := hkeys key
  simp only [mem_keys_iff] at hlive
  cases ht : t.get? key with
  | none =>
      cases hu : u.get? key with
      | none => rfl
      | some w => simp [ht, hu] at hlive
  | some v =>
      cases hu : u.get? key with
      | none => simp [ht, hu] at hlive
      | some w => rw [hvalue key v w ht hu]

theorem mem_keys_update {t : Table β} {key other : String} {f : Option β → β} :
    other ∈ (t.update key f).keys ↔ other = key ∨ other ∈ t.keys := by
  rw [mem_keys_iff, get?_update, mem_keys_iff]
  by_cases h : other = key
  · simp [h]
  · simp [h]

/-- A look-up after a key is erased. -/
theorem get?_erase (t : Table β) (key other : String) :
    (t.erase key).get? other = if other = key then none else t.get? other := by
  by_cases h : other = key
  · rw [if_pos h, get?_eq_none_iff, mem_keys_erase]
    exact fun hmem => hmem.2 h
  · rw [if_neg h]
    apply Option.ext
    intro value
    simp [get?_eq_some_iff, erase, h]

theorem erase_of_not_mem {t : Table β} {key : String} (h : key ∉ t.keys) : t.erase key = t := by
  apply eq_of_get?
  intro other
  rw [get?_erase]
  split
  · rename_i heq
    rw [heq, get?_eq_none_iff.2 h]
  · rfl

/-- Erasing a key that is there takes away one entry and no more. -/
theorem size_erase {t : Table β} {key : String} (h : key ∈ t.keys) :
    (t.erase key).size + 1 = t.size := by
  have hkeys : (t.erase key).keys = t.keys.erase key := by
    rw [t.keys_nodup.erase_eq_filter]
    simp only [keys, erase, List.filter_map, Function.comp_def, decide_not]
    rfl
  have hlen := List.length_erase_of_mem h
  have hpos := List.length_pos_of_mem h
  rw [← hkeys] at hlen
  simp only [keys, List.length_map] at hlen hpos
  simp only [size]
  omega

theorem get?_map (f : β → γ) (t : Table β) (key : String) :
    (t.map f).get? key = (t.get? key).map f := by
  apply Option.ext
  intro value
  rw [Option.map_eq_some_iff, get?_eq_some_iff]
  simp only [map, List.mem_map, Prod.mk.injEq, get?_eq_some_iff]
  constructor
  · rintro ⟨e, he, rfl, rfl⟩
    exact ⟨e.2, he, rfl⟩
  · rintro ⟨v, hv, rfl⟩
    exact ⟨(key, v), hv, rfl, rfl⟩

theorem keys_map (f : β → γ) (t : Table β) : (t.map f).keys = t.keys := by
  simp [keys, map, Function.comp_def]

private theorem get?_foldl_insert {pairs : List (String × β)} (h : (pairs.map Prod.fst).Nodup)
    (t : Table β) (key : String) (value : β) :
    (pairs.foldl (fun t e => t.insert e.1 e.2) t).get? key = some value ↔
      (key, value) ∈ pairs ∨ key ∉ pairs.map Prod.fst ∧ t.get? key = some value := by
  induction pairs generalizing t with
  | nil => simp
  | cons e rest ih =>
      obtain ⟨hnew, hrest⟩ := List.nodup_cons.1 h
      rw [List.foldl_cons, ih hrest, get?_insert]
      by_cases hkey : key = e.1
      · have hnone : (key, value) ∉ rest := by
          intro hmem
          exact hnew (hkey ▸ List.mem_map.2 ⟨_, hmem, rfl⟩)
        have hhead : (key, value) = e ↔ e.2 = value := by
          rw [Prod.ext_iff]
          simp [hkey, eq_comm]
        have hnew' : key ∉ rest.map Prod.fst := hkey ▸ hnew
        have hlisted : key ∈ (e :: rest).map Prod.fst := by simp [hkey]
        simp only [if_pos hkey, Option.some.injEq, List.mem_cons, hhead, hnone, hnew', hlisted,
          not_true, not_false_eq_true, true_and, false_and, false_or, or_false]
      · have hhead : (key, value) ≠ e := by
          rintro rfl
          exact hkey rfl
        rw [if_neg hkey]
        simp only [List.mem_cons, hhead, false_or, List.map_cons, hkey]

/-- A table of pairs with different keys holds exactly these. -/
theorem get?_ofList {pairs : List (String × β)} (h : (pairs.map Prod.fst).Nodup) {key : String}
    {value : β} : (ofList pairs).get? key = some value ↔ (key, value) ∈ pairs := by
  rw [ofList, get?_foldl_insert h, get?_empty]
  simp

/-- The entries of a table make it up again, whatever their order. -/
theorem ofList_of_perm {t : Table β} {pairs : List (String × β)} (h : pairs.Perm t.entries) :
    ofList pairs = t := by
  have hnodup : (pairs.map Prod.fst).Nodup := (h.map Prod.fst).nodup_iff.2 t.keys_nodup
  apply eq_of_get?
  intro key
  apply Option.ext
  intro value
  rw [get?_ofList hnodup, get?_eq_some_iff, h.mem_iff]

end Table

end ModuleRecovery
