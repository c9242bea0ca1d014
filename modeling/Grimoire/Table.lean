import Grimoire.Text.Basic

/-!
# Ordered tables

A table maps keys to values, holds each key once and enumerates its entries in the order in which
the keys were first inserted. Tomes are tables of values; so are the variables of a run, its module
aliases and the parameters of a shape call.
-/

namespace Grimoire

/-- An ordered table with distinct keys. -/
structure Table (α : Type) where
  entries : List (Text × α)
  distinct : (entries.map Prod.fst).Nodup

namespace Table

variable {α : Type}

/-- The table without entries. -/
def empty : Table α :=
  ⟨[], List.nodup_nil⟩

instance : Inhabited (Table α) := ⟨empty⟩

/-- The keys, in order. -/
def keys (t : Table α) : List Text :=
  t.entries.map Prod.fst

/-- The values, in the order of their keys. -/
def values (t : Table α) : List α :=
  t.entries.map Prod.snd

/-- The number of entries. -/
def size (t : Table α) : Nat :=
  t.entries.length

/-- Whether the table has no entry. -/
def isEmpty (t : Table α) : Bool :=
  t.entries.isEmpty

/-- The value under a key. -/
def get? (t : Table α) (key : Text) : Option α :=
  t.entries.lookup key

/-- Whether a key is present. -/
def hasKey (t : Table α) (key : Text) : Bool :=
  t.entries.any (·.1 == key)

/-! ## Insertion -/

/-- Replaces the value of the first entry under a key, or adds an entry at the end. -/
def put (key : Text) (value : α) : List (Text × α) → List (Text × α)
  | [] => [(key, value)]
  | entry :: rest => if entry.1 = key then (key, value) :: rest else entry :: put key value rest

theorem map_fst_put (key : Text) (value : α) (entries : List (Text × α)) :
    (put key value entries).map Prod.fst
      = if key ∈ entries.map Prod.fst then entries.map Prod.fst
        else entries.map Prod.fst ++ [key] := by
  induction entries with
  | nil => simp [put]
  | cons entry rest ih =>
    by_cases h : entry.1 = key
    · simp [put, h]
    · have h' : key ≠ entry.1 := fun e => h e.symm
      simp only [put, h, if_false, List.map_cons, ih, List.mem_cons, h', false_or]
      split <;> simp

/-- Sets the value under a key: in place when the key is present, at the end otherwise. -/
def insert (t : Table α) (key : Text) (value : α) : Table α where
  entries := put key value t.entries
  distinct := by
    rw [map_fst_put]
    split
    · exact t.distinct
    · next h =>
      rw [List.nodup_append]
      refine ⟨t.distinct, by simp, ?_⟩
      intro a ha b hb
      rw [List.mem_singleton] at hb
      subst hb
      intro hab
      exact h (hab ▸ ha)

/-- A present key keeps its place and an absent one goes to the end. -/
theorem keys_insert (t : Table α) (key : Text) (value : α) :
    (t.insert key value).keys = if key ∈ t.keys then t.keys else t.keys ++ [key] :=
  map_fst_put key value t.entries

/-- The table of a list of entries, inserted in order. -/
def ofList (entries : List (Text × α)) : Table α :=
  entries.foldl (fun t entry => t.insert entry.1 entry.2) empty

/-- Inserts every entry of `source` into `t`. -/
def meld (source t : Table α) : Table α :=
  source.entries.foldl (fun t entry => t.insert entry.1 entry.2) t

/-! ## Removal -/

/-- The table with the entries whose keys satisfy a condition. -/
def filterKeys (t : Table α) (keep : Text → Bool) : Table α where
  entries := t.entries.filter fun entry => keep entry.1
  distinct := (t.distinct.sublist (List.filter_sublist.map Prod.fst))

/-- Removes a key and its value. -/
def erase (t : Table α) (key : Text) : Table α :=
  t.filterKeys (· ≠ key)

/-- Moves the value under `old` to the key `new` at the end; an entry under `new` gives way. A
table without `old` stays as it is. -/
def rebrand (t : Table α) (old new : Text) : Table α :=
  match t.get? old with
  | some value => ((t.erase old).erase new).insert new value
  | none => t

end Table

end Grimoire
