import Grimoire.Table
import Mathlib.Data.List.Basic

/-!
# The values of tables

Every operation on tables takes its values from the tables and the values that it is given. An
insertion changes what is found under its own key and under no other.
-/

namespace Grimoire

namespace Table

variable {α : Type}

/-- What is found under a key is a value of the table. -/
theorem mem_values_of_get? {t : Table α} {key : Text} {v : α} (h : t.get? key = some v) :
    v ∈ t.values := by
  obtain ⟨entry, hentry, hv⟩ : ∃ entry ∈ t.entries, entry.2 = v := by
    unfold get? at h
    rw [List.lookup_eq_some_iff] at h
    obtain ⟨before, after, hsplit, -⟩ := h
    exact ⟨(key, v), by rw [hsplit]; simp, rfl⟩
  exact List.mem_map.2 ⟨entry, hentry, hv⟩

/-- The values of the empty table are none. -/
@[simp]
theorem values_empty : (empty : Table α).values = [] := rfl

theorem mem_map_snd_put {key : Text} {value v : α} {entries : List (Text × α)}
    (h : v ∈ (put key value entries).map Prod.snd) :
    v = value ∨ v ∈ entries.map Prod.snd := by
  induction entries with
  | nil =>
    rw [put, List.map_singleton, List.mem_singleton] at h
    exact Or.inl h
  | cons entry rest ih =>
    rw [put] at h
    split at h
    · rw [List.map_cons, List.mem_cons] at h
      exact h.imp id (List.mem_cons_of_mem _)
    · rw [List.map_cons, List.mem_cons] at h
      rcases h with rfl | h
      · exact Or.inr List.mem_cons_self
      · exact (ih h).imp id (List.mem_cons_of_mem _)

/-- An insertion brings in its value alone. -/
theorem mem_values_insert {t : Table α} {key : Text} {value v : α}
    (h : v ∈ (t.insert key value).values) : v = value ∨ v ∈ t.values :=
  mem_map_snd_put h

theorem lookup_cons_eq_ite (key : Text) (entry : Text × α) (rest : List (Text × α)) :
    (entry :: rest).lookup key = if key = entry.1 then some entry.2 else rest.lookup key := by
  rw [List.lookup_cons]
  by_cases h : key = entry.1
  · rw [if_pos h, beq_iff_eq.2 h]
  · rw [if_neg h, beq_eq_false_iff_ne.2 h]

theorem lookup_put (key key' : Text) (value : α) (entries : List (Text × α)) :
    (put key value entries).lookup key' = if key' = key then some value else entries.lookup key' := by
  induction entries with
  | nil => rw [put, lookup_cons_eq_ite]
  | cons entry rest ih =>
    rw [put]
    by_cases hentry : entry.1 = key
    · subst hentry
      rw [if_pos rfl, lookup_cons_eq_ite, lookup_cons_eq_ite]
      split <;> rfl
    · rw [if_neg hentry, lookup_cons_eq_ite, lookup_cons_eq_ite, ih]
      by_cases h : key' = entry.1
      · -- the entry is under another key than the one that is put
        rw [if_pos h, if_pos h, if_neg (h ▸ hentry)]
      · rw [if_neg h, if_neg h]

/-- An insertion is found under its key, and under other keys what was there before. -/
theorem get?_insert (t : Table α) (key key' : Text) (value : α) :
    (t.insert key value).get? key' = if key' = key then some value else t.get? key' :=
  lookup_put key key' value t.entries

theorem lookup_filter (keep : Text → Bool) (key : Text) (entries : List (Text × α)) :
    (entries.filter fun entry => keep entry.1).lookup key =
      if keep key then entries.lookup key else none := by
  induction entries with
  | nil => rw [List.filter_nil, List.lookup_nil, ite_self]
  | cons entry rest ih =>
    rw [List.filter_cons, lookup_cons_eq_ite]
    by_cases h : key = entry.1
    · subst h
      rw [if_pos rfl]
      by_cases hkeep : keep entry.1 = true
      · rw [if_pos hkeep, if_pos hkeep, lookup_cons_eq_ite, if_pos rfl]
      · rw [if_neg hkeep, ih]
        rw [if_neg hkeep, if_neg hkeep]
    · rw [if_neg h, ← ih]
      by_cases hkeep : keep entry.1 = true
      · rw [if_pos hkeep, lookup_cons_eq_ite, if_neg h]
      · rw [if_neg hkeep]

/-- An erased key is not found, and under other keys is what was there before. -/
theorem get?_erase (t : Table α) (key key' : Text) :
    (t.erase key).get? key' = if key' = key then none else t.get? key' := by
  have h := lookup_filter (· ≠ key) key' t.entries
  by_cases hsame : key' = key
  · rw [if_pos hsame]
    rw [if_neg (by simp [hsame])] at h
    exact h
  · rw [if_neg hsame]
    rw [if_pos (by simp [hsame])] at h
    exact h

/-- Insertions one after the other bring in their values alone. -/
theorem mem_values_foldl_insert {entries : List (Text × α)} {t : Table α} {v : α}
    (h : v ∈ (entries.foldl (fun t entry => t.insert entry.1 entry.2) t).values) :
    v ∈ entries.map Prod.snd ∨ v ∈ t.values := by
  induction entries generalizing t with
  | nil => exact Or.inr h
  | cons entry rest ih =>
    rw [List.foldl_cons] at h
    rcases ih h with hrest | ht
    · exact Or.inl (List.mem_cons_of_mem _ hrest)
    · rcases mem_values_insert ht with rfl | hv
      · exact Or.inl List.mem_cons_self
      · exact Or.inr hv

theorem mem_values_ofList {entries : List (Text × α)} {v : α} (h : v ∈ (ofList entries).values) :
    v ∈ entries.map Prod.snd := by
  rcases mem_values_foldl_insert h with hv | hv
  · exact hv
  · simp at hv

theorem put_of_not_mem {key : Text} {value : α} {entries : List (Text × α)}
    (h : key ∉ entries.map Prod.fst) : put key value entries = entries ++ [(key, value)] := by
  induction entries with
  | nil => rfl
  | cons entry rest ih =>
    rw [List.map_cons, List.mem_cons, not_or] at h
    rw [put, if_neg (Ne.symm h.1), ih h.2, List.cons_append]

theorem entries_foldl_insert {entries : List (Text × α)} {t : Table α}
    (h : ((t.entries ++ entries).map Prod.fst).Nodup) :
    (entries.foldl (fun t entry => t.insert entry.1 entry.2) t).entries = t.entries ++ entries := by
  induction entries generalizing t with
  | nil => rw [List.foldl_nil, List.append_nil]
  | cons entry rest ih =>
    have hnew : entry.1 ∉ t.entries.map Prod.fst := by
      rw [List.map_append, List.map_cons, List.nodup_append] at h
      exact fun hmem => h.2.2 _ hmem _ List.mem_cons_self rfl
    have hinsert : (t.insert entry.1 entry.2).entries = t.entries ++ [entry] := put_of_not_mem hnew
    rw [List.foldl_cons, ih (by rwa [hinsert, List.append_assoc]), hinsert, List.append_assoc]
    rfl

/-- The table of entries with distinct keys has these entries in their order. -/
theorem entries_ofList {entries : List (Text × α)} (h : (entries.map Prod.fst).Nodup) :
    (ofList entries).entries = entries :=
  entries_foldl_insert (t := .empty) h

/-- A melded table has the values of the two. -/
theorem mem_values_meld {source t : Table α} {v : α} (h : v ∈ (meld source t).values) :
    v ∈ source.values ∨ v ∈ t.values :=
  mem_values_foldl_insert h

theorem mem_values_filterKeys {t : Table α} {keep : Text → Bool} {v : α}
    (h : v ∈ (t.filterKeys keep).values) : v ∈ t.values := by
  obtain ⟨entry, hentry, rfl⟩ := List.mem_map.1 h
  exact List.mem_map_of_mem (List.mem_of_mem_filter hentry)

theorem mem_values_erase {t : Table α} {key : Text} {v : α} (h : v ∈ (t.erase key).values) :
    v ∈ t.values :=
  mem_values_filterKeys h

/-- A renamed key brings in no value. -/
theorem mem_values_rebrand {t : Table α} {old new : Text} {v : α}
    (h : v ∈ (t.rebrand old new).values) : v ∈ t.values := by
  unfold rebrand at h
  split at h
  · next value hvalue =>
    rcases mem_values_insert h with rfl | hv
    · exact mem_values_of_get? hvalue
    · exact mem_values_erase (mem_values_erase hv)
  · exact h

end Table

end Grimoire
