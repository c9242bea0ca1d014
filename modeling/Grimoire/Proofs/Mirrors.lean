import Grimoire.Proofs.Spared
import Grimoire.Proofs.Walks

/-!
# Copies share nothing

A copy of a value stands for the same datum, so it is displayed alike, and every container in it is
fresh: what existed before reaches nothing of the copy and the copy reaches none of what existed.
What a value stands for depends on the containers that it reaches and on no others.
-/

namespace Grimoire

open Relation

/-! ## Displayed data -/

namespace Datum

mutual

/-- The display text of a datum. -/
def display : Datum → Text
  | undefined => "undefined".toList
  | boolean b => if b then "true".toList else "false".toList
  | number x => x.display
  | string text => text
  | timestamp t => t.display
  | shape f => "<shape (".toList ++ Text.join listSeparator f.parameters ++ ")>".toList
  | module m => "<module ".toList ++ m.path ++ ">".toList
  | sequence items => '[' :: Text.join listSeparator (displayItems items) ++ [']']
  | tome entries => '\x7b' :: Text.join listSeparator (displayEntries entries) ++ ['\x7d']

/-- The display texts of the elements of a sequence. -/
def displayItems : List Datum → List Text
  | [] => []
  | item :: rest => display item :: displayItems rest

/-- The display texts of the entries of a tome. -/
def displayEntries : List (Text × Datum) → List Text
  | [] => []
  | (key, value) :: rest => (key ++ ':' :: ' ' :: display value) :: displayEntries rest

end

/-- A sequence is displayed as its elements in brackets. -/
theorem display_sequence (items : List Datum) :
    (sequence items).display =
      '[' :: Text.join listSeparator (items.map display) ++ [']'] := by
  have hitems : displayItems items = items.map display := by
    induction items with
    | nil => rfl
    | cons item rest ih => rw [List.map_cons, ← ih, displayItems]
  rw [← hitems]
  rfl

/-- A tome is displayed as its keys and values in braces. -/
theorem display_tome (entries : List (Text × Datum)) :
    (tome entries).display = '\x7b' :: Text.join listSeparator (entries.map fun entry =>
      entry.1 ++ ':' :: ' ' :: entry.2.display) ++ ['\x7d'] := by
  have hentries : displayEntries entries =
      entries.map fun entry => entry.1 ++ ':' :: ' ' :: entry.2.display := by
    induction entries with
    | nil => rfl
    | cons entry rest ih => rw [List.map_cons, ← ih, displayEntries]
  rw [← hentries]
  rfl

end Datum

namespace Store

variable {s t u : Store} {v w : Value}

theorem displayWithin_eq (s : Store) (depth : Nat) (v : Value) :
    s.displayWithin depth v = (s.datumWithin depth v).display := by
  induction depth generalizing v with
  | zero => cases v <;> rfl
  | succ depth ih =>
    have hnext : s.displayWithin depth = Datum.display ∘ s.datumWithin depth := funext ih
    cases v with
    | sequence cell =>
      rw [displayWithin, datumWithin, Datum.display_sequence, List.map_map, hnext]
    | tome cell =>
      rw [displayWithin, datumWithin, Datum.display_tome, List.map_map]
      simp only [ih, Function.comp_def]
    | _ => rfl

/-- A value is displayed as what it stands for. -/
theorem display_eq (s : Store) (v : Value) : s.display v = (s.datum v).display :=
  s.displayWithin_eq s.cells v

/-! ## What a value depends on -/

theorem datumWithin_of_sameAt (h : ∀ c, ReflTransGen s.Encloses v c → s.SameAt t c)
    (depth : Nat) : t.datumWithin depth v = s.datumWithin depth v := by
  induction depth generalizing v with
  | zero => cases v <;> rfl
  | succ depth ih =>
    have hnext : ∀ w, s.Encloses v w → t.datumWithin depth w = s.datumWithin depth w :=
      fun w hw => ih fun c hc => h c (hc.head hw)
    cases v with
    | sequence cell =>
      have hitems : t.items cell = s.items cell := h _ .refl
      rw [datumWithin, datumWithin, hitems]
      exact congrArg Datum.sequence
        (List.map_congr_left fun w hw => hnext w (encloses_of_mem_items hw))
    | tome cell =>
      have hentries : t.entries cell = s.entries cell := h _ .refl
      rw [datumWithin, datumWithin, hentries]
      refine congrArg Datum.tome (List.map_congr_left fun entry hentry => ?_)
      rw [hnext entry.2 (encloses_of_mem_entries hentry)]
    | _ => rfl

/-- A value stands for the same datum where all that it reaches is the same. -/
theorem Sound.datum_of_sameAt (hs : s.Sound) (ht : t.Sound) (hv : s.Has v) (hv' : t.Has v)
    (h : ∀ c, ReflTransGen s.Encloses v c → s.SameAt t c) : t.datum v = s.datum v := by
  -- the bounds differ, but neither is what stops the walk
  calc t.datum v = t.datumWithin (max s.cells t.cells) v :=
        (ht.datumWithin_eq (.refl t) hv' (ht.nestsWithin hv') (Nat.le_max_right _ _)).symm
    _ = s.datumWithin (max s.cells t.cells) v := datumWithin_of_sameAt h _
    _ = s.datum v := hs.datumWithin_eq (.refl s) hv (hs.nestsWithin hv) (Nat.le_max_left _ _)

/-! ## Copies -/

/-- A value is a copy, in an extension of a store, of one that exists in the store. -/
structure Copies (s : Store) (v : Value) (t : Store) (copy : Value) : Prop where
  grows : s.Extends t
  sound : t.Sound
  has : t.Has copy
  /-- Every container of the copy is fresh. -/
  fresh : ∀ c, c.isContainer = true → ReflTransGen t.Encloses copy c → ¬ s.Has c
  datum : t.datum copy = s.datum v

/-- Copies of several values, one after the other. -/
structure CopiesAll (s : Store) (values : List Value) (t : Store) (copies : List Value) : Prop where
  grows : s.Extends t
  sound : t.Sound
  has : ∀ copy ∈ copies, t.Has copy
  fresh : ∀ copy ∈ copies, ∀ c, c.isContainer = true → ReflTransGen t.Encloses copy c → ¬ s.Has c
  data : copies.map t.datum = values.map s.datum

theorem CopiesAll.nil (hs : s.Sound) : s.CopiesAll [] s [] where
  grows := .refl s
  sound := hs
  has copy h := by cases h
  fresh copy h := by cases h
  data := rfl

/-- A copy and the copies after it. -/
theorem Copies.cons {copy : Value} {values copies : List Value} (hs : s.Sound)
    (hvalues : ∀ w ∈ values, s.Has w) (h : s.Copies v t copy) (h' : t.CopiesAll values u copies) :
    s.CopiesAll (v :: values) u (copy :: copies) where
  grows := h.grows.trans h'.grows
  sound := h'.sound
  has w hw := by
    rcases List.mem_cons.1 hw with rfl | hw
    · exact h'.grows.has h.has
    · exact h'.has w hw
  fresh w hw c hc hreach := by
    rcases List.mem_cons.1 hw with rfl | hw
    · rw [h'.grows.reaches_iff h.sound h.has] at hreach
      exact h.fresh c hc hreach
    · exact fun hold => h'.fresh w hw c hc hreach (h.grows.has hold)
  data := by
    rw [List.map_cons, List.map_cons, h.sound.datum_of_extends h'.grows h.has, h.datum, h'.data]
    exact congrArg _ (List.map_congr_left fun w hw => hs.datum_of_extends h.grows (hvalues w hw))

/-- The copies come in the order of the values. -/
theorem mirrorAll_cons (mirror : Value → Store → Value × Store) (v : Value) (rest : List Value)
    (s : Store) :
    mirrorAll mirror (v :: rest) s =
      ((mirror v s).1 :: (mirrorAll mirror rest (mirror v s).2).1,
        (mirrorAll mirror rest (mirror v s).2).2) := by
  have hfold := foldl_make mirror rest [(mirror v s).1] (mirror v s).2
  have hall : mirrorAll mirror (v :: rest) s = _ :=
    congrArg (fun out : List Value × Store => (out.1.reverse, out.2)) hfold
  rw [hall, List.reverse_append]
  rfl

/-- Where each value is copied, all are. -/
theorem copiesAll_mirrorAll {mirror : Value → Store → Value × Store} {values : List Value}
    (hs : s.Sound) (hvalues : ∀ v ∈ values, s.Has v)
    (hcopies : ∀ v ∈ values, ∀ t : Store, s.Extends t → t.Sound →
      t.Copies v (mirror v t).2 (mirror v t).1) :
    s.CopiesAll values (mirrorAll mirror values s).2 (mirrorAll mirror values s).1 := by
  induction values generalizing s with
  | nil => exact .nil hs
  | cons v rest ih =>
    rw [List.forall_mem_cons] at hvalues hcopies
    have hfirst := hcopies.1 s (.refl s) hs
    rw [mirrorAll_cons]
    refine hfirst.cons hs hvalues.2 (ih hfirst.sound ?_ ?_)
    · exact fun w hw => hfirst.grows.has (hvalues.2 w hw)
    · exact fun w hw t ht => hcopies.2 w hw t (hfirst.grows.trans ht)

/-- What a value encloses in a store it encloses in an extension. -/
theorem Extends.nestsWithin (h : s.Extends t) (hs : s.Sound) (hv : s.Has v) {depth : Nat}
    (hdepth : s.NestsWithin depth v) : t.NestsWithin depth v := by
  induction depth generalizing v with
  | zero => exact hdepth
  | succ depth ih =>
    intro w hw
    rw [Encloses, h.contents hv] at hw
    exact ih (hs.closed v w hw) (hdepth w hw)

/-- A fresh container of copies is a copy of the container. -/
theorem CopiesAll.copies_newSequence {cell : Nat} {copies : List Value} (hs : s.Sound)
    (hcell : s.Has (.sequence cell)) (h : s.CopiesAll (s.items cell) t copies) :
    s.Copies (.sequence cell) (t.newSequence copies).2 (t.newSequence copies).1 where
  grows := h.grows.trans (extends_newSequence t copies)
  sound := h.sound.newSequence h.has
  has := has_newSequence
  fresh c hc hreach := by
    have hextends := extends_newSequence t copies
    rcases hreach.cases_head with rfl | ⟨copy, hcopy, hreach⟩
    · exact fun hold => not_has_newSequence (h.grows.has hold)
    · rw [Encloses, contents_newSequence] at hcopy
      rw [hextends.reaches_iff h.sound (h.has copy hcopy)] at hreach
      exact h.fresh copy hcopy c hc hreach
  datum := by
    rw [h.sound.datum_newSequence h.has, hs.datum_sequence hcell, h.data]

/-- The entries of a fresh tome are the keys of the tome, each with the copy of its value. -/
theorem CopiesAll.entries_ofList {cell : Nat} {copies : List Value}
    (h : s.CopiesAll (s.entries cell).values t copies) :
    (Table.ofList ((s.entries cell).keys.zip copies)).entries =
      (s.entries cell).keys.zip copies := by
  have hlength : (s.entries cell).keys.length = copies.length := by
    have hdata := congrArg List.length h.data
    simpa [Table.values, Table.keys] using hdata.symm
  apply Table.entries_ofList
  rw [List.map_fst_zip (Nat.le_of_eq hlength)]
  exact (s.entries cell).distinct

theorem CopiesAll.copies_newTome {cell : Nat} {copies : List Value} (hs : s.Sound)
    (hcell : s.Has (.tome cell)) (h : s.CopiesAll (s.entries cell).values t copies) :
    s.Copies (.tome cell) (t.newTome (.ofList ((s.entries cell).keys.zip copies))).2
      (t.newTome (.ofList ((s.entries cell).keys.zip copies))).1 := by
  have hvalues : ∀ copy ∈ (Table.ofList ((s.entries cell).keys.zip copies)).values,
      copy ∈ copies := by
    intro copy hcopy
    obtain ⟨entry, hentry, rfl⟩ := List.mem_map.1 (Table.mem_values_ofList hcopy)
    exact (List.of_mem_zip hentry).2
  have hhas := fun copy hcopy => h.has copy (hvalues copy hcopy)
  have hextends := extends_newTome t (.ofList ((s.entries cell).keys.zip copies))
  constructor
  · exact h.grows.trans hextends
  · exact h.sound.newTome hhas
  · exact has_newTome
  · intro c hc hreach
    rcases hreach.cases_head with rfl | ⟨copy, hcopy, hreach⟩
    · exact fun hold => not_has_newTome (h.grows.has hold)
    · rw [Encloses, contents_newTome] at hcopy
      rw [hextends.reaches_iff h.sound (hhas copy hcopy)] at hreach
      exact h.fresh copy (hvalues copy hcopy) c hc hreach
  · have hdata : (s.entries cell).entries.map (fun entry => (entry.1, s.datum entry.2)) =
        (s.entries cell).keys.zip (copies.map t.datum) := by
      rw [h.data, Table.keys, Table.values, List.map_map, List.zip_map']
      rfl
    rw [h.sound.datum_newTome hhas, hs.datum_tome hcell, h.entries_ofList, hdata,
      List.zip_map_right]
    rfl

/-- A value that is no container is its own copy. -/
theorem Sound.copies_self (hs : s.Sound) (hv : v.isContainer = false) : s.Copies v s v where
  grows := .refl s
  sound := hs
  has := has_of_not_isContainer hv
  fresh c hc hreach := by
    rcases hreach.cases_head with rfl | ⟨w, hw, -⟩
    · rw [hv] at hc
      cases hc
    · rw [Encloses, contents_of_not_isContainer hv] at hw
      cases hw
  datum := rfl

/-- A value is copied whole by a walk that may go as deep as the value is nested. -/
theorem Sound.copies_mirrorWithin (hs : s.Sound) {depth : Nat} (hv : s.Has v)
    (hdepth : s.NestsWithin depth v) :
    s.Copies v (mirrorWithin depth v s).2 (mirrorWithin depth v s).1 := by
  induction depth generalizing s v with
  | zero =>
    cases v with
    | sequence cell | tome cell => cases hdepth
    | _ => exact hs.copies_self rfl
  | succ depth ih =>
    -- the copies before have added cells, but what `v` encloses is as it was
    have hparts : s.CopiesAll (s.contents v) (mirrorAll (mirrorWithin depth) (s.contents v) s).2
        (mirrorAll (mirrorWithin depth) (s.contents v) s).1 := by
      refine copiesAll_mirrorAll hs (hs.closed v) fun w hw t ht hsound => ?_
      have hhas := hs.closed v w hw
      exact ih hsound (ht.has hhas) (ht.nestsWithin hs hhas (hdepth w hw))
    cases v with
    | sequence cell => exact hparts.copies_newSequence hs hv
    | tome cell => exact hparts.copies_newTome hs hv
    | _ => exact hs.copies_self rfl

/-- The copy of a value that exists. -/
theorem Sound.copies_mirror (hs : s.Sound) (hv : s.Has v) :
    s.Copies v (s.mirror v).2 (s.mirror v).1 :=
  hs.copies_mirrorWithin hv (hs.nestsWithin hv)

end Store

end Grimoire
