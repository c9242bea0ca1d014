import Grimoire.Proofs.Containment

/-!
# What values stand for

A value names cells. Together with what is in those cells, and in the cells named there, it stands
for a datum: a tree without any cells. In a sound store that tree is found whole, it stays the same
while cells are added, and values that stand for the same datum are equal.
-/

namespace Grimoire

/-- A value with everything in it. -/
inductive Datum where
  | undefined
  | boolean (b : Bool)
  | number (x : Number)
  | string (text : Text)
  | timestamp (t : Timestamp)
  | shape (f : Shape)
  | module (m : ModuleName)
  | sequence (items : List Datum)
  | tome (entries : List (Text × Datum))

/-- The same data in the same order. Numbers are compared as numbers: the two zeros are the same,
and NaN is not the same as itself. -/
inductive Datum.Same : Datum → Datum → Prop where
  | undefined : Same .undefined .undefined
  | boolean (b : Bool) : Same (.boolean b) (.boolean b)
  | number {x y : Number} (h : (x == y) = true) : Same (.number x) (.number y)
  | string (text : Text) : Same (.string text) (.string text)
  | timestamp (t : Timestamp) : Same (.timestamp t) (.timestamp t)
  | shape (f : Shape) : Same (.shape f) (.shape f)
  | module (m : ModuleName) : Same (.module m) (.module m)
  | sequence {items items' : List Datum} (h : List.Forall₂ Same items items') :
      Same (.sequence items) (.sequence items')
  | tome {entries entries' : List (Text × Datum)}
      (keys : entries.map Prod.fst = entries'.map Prod.fst)
      (values : List.Forall₂ Same (entries.map Prod.snd) (entries'.map Prod.snd)) :
      Same (.tome entries) (.tome entries')

namespace Store

/-- The datum of a value nested in at most `depth` more containers. -/
def datumWithin (s : Store) : Nat → Value → Datum
  | _, .undefined => .undefined
  | _, .boolean b => .boolean b
  | _, .number x => .number x
  | _, .string text => .string text
  | _, .timestamp t => .timestamp t
  | _, .shape f => .shape f
  | _, .module m => .module m
  | 0, .sequence _ => .sequence []
  | 0, .tome _ => .tome []
  | depth + 1, .sequence cell => .sequence ((s.items cell).map (s.datumWithin depth))
  | depth + 1, .tome cell =>
    .tome ((s.entries cell).entries.map fun entry => (entry.1, s.datumWithin depth entry.2))

/-- The datum that a value stands for. -/
def datum (s : Store) (v : Value) : Datum :=
  s.datumWithin s.cells v

variable {s t : Store} {v w : Value}

/-! ## Extensions -/

theorem Extends.items (h : s.Extends t) {cell : Nat} (hcell : s.Has (.sequence cell)) :
    t.items cell = s.items cell :=
  h.contents hcell

theorem Extends.entries (h : s.Extends t) {cell : Nat} (hcell : s.Has (.tome cell)) :
    t.entries cell = s.entries cell := by
  obtain ⟨rest, hrest⟩ := h.2
  have hlength : cell < s.tomes.toList.length := hcell
  have hget : t.tomes.toList[cell]? = s.tomes.toList[cell]? := by
    rw [← hrest, List.getElem?_append_left hlength]
  simpa [Store.entries] using congrArg (·.getD .empty) hget

theorem Extends.cells_le (h : s.Extends t) : s.cells ≤ t.cells := by
  have hsequences := h.1.length_le
  have htomes := h.2.length_le
  rw [Array.length_toList, Array.length_toList] at hsequences htomes
  exact Nat.add_le_add hsequences htomes

theorem encloses_of_mem_items {cell : Nat} (h : w ∈ s.items cell) :
    s.Encloses (.sequence cell) w := h

theorem encloses_of_mem_entries {cell : Nat} {entry : Text × Value}
    (h : entry ∈ (s.entries cell).entries) : s.Encloses (.tome cell) entry.2 :=
  List.mem_map_of_mem h

/-- Neither more cells nor a greater bound changes the datum of a value. -/
theorem Sound.datumWithin_eq (hs : s.Sound) (hst : s.Extends t) {depth bound : Nat}
    (hv : s.Has v) (hdepth : s.NestsWithin depth v) (hbound : depth ≤ bound) :
    t.datumWithin bound v = s.datumWithin depth v := by
  induction depth generalizing v bound with
  | zero =>
    cases v with
    | sequence cell | tome cell => cases hdepth
    | _ => simp only [datumWithin]
  | succ depth ih =>
    obtain ⟨bound, rfl⟩ : ∃ n, bound = n + 1 := ⟨bound - 1, by omega⟩
    have hnext : ∀ w, s.Encloses v w → t.datumWithin bound w = s.datumWithin depth w :=
      fun w hw => ih (hs.closed v w hw) (hdepth w hw) (by omega)
    cases v with
    | sequence cell =>
      rw [datumWithin, datumWithin, hst.items hv]
      exact congrArg Datum.sequence
        (List.map_congr_left fun w hw => hnext w (encloses_of_mem_items hw))
    | tome cell =>
      rw [datumWithin, datumWithin, hst.entries hv]
      refine congrArg Datum.tome (List.map_congr_left fun entry hentry => ?_)
      rw [hnext entry.2 (encloses_of_mem_entries hentry)]
    | _ => simp only [datumWithin]

/-- A value stands for the same datum when there are more cells. -/
theorem Sound.datum_of_extends (hs : s.Sound) (hst : s.Extends t) (hv : s.Has v) :
    t.datum v = s.datum v :=
  hs.datumWithin_eq hst hv (hs.nestsWithin hv) hst.cells_le

theorem Sound.datumWithin_eq_datum (hs : s.Sound) (hv : s.Has v) {depth : Nat}
    (hdepth : s.NestsWithin depth v) (hbound : depth ≤ s.cells) :
    s.datumWithin depth v = s.datum v :=
  (hs.datumWithin_eq (.refl s) hv hdepth hbound).symm

/-! ## Containers -/

theorem exists_cells_eq_succ (hv : s.Has v) (hc : v.isContainer = true) :
    ∃ n, s.cells = n + 1 := by
  have hpos : 0 < s.containers.length := List.length_pos_of_mem (mem_containers hv hc)
  rw [length_containers] at hpos
  exact ⟨s.cells - 1, by omega⟩

/-- What a container holds stands for its datum with one level less to go. -/
theorem Sound.datumWithin_of_encloses (hs : s.Sound) {n : Nat} (hv : s.Has v)
    (hcells : s.cells = n + 1) (hw : s.Encloses v w) : s.datumWithin n w = s.datum w := by
  have hdepth := hs.nestsWithin hv
  rw [hcells] at hdepth
  exact hs.datumWithin_eq_datum (hs.closed v w hw) (hdepth w hw) (by omega)

/-- A sequence stands for the data of its elements. -/
theorem Sound.datum_sequence (hs : s.Sound) {cell : Nat} (h : s.Has (.sequence cell)) :
    s.datum (.sequence cell) = .sequence ((s.items cell).map s.datum) := by
  obtain ⟨n, hn⟩ := exists_cells_eq_succ h rfl
  rw [datum, hn, datumWithin]
  exact congrArg Datum.sequence (List.map_congr_left fun w hw =>
    hs.datumWithin_of_encloses h hn (encloses_of_mem_items hw))

/-- A tome stands for the data of its values under their keys. -/
theorem Sound.datum_tome (hs : s.Sound) {cell : Nat} (h : s.Has (.tome cell)) :
    s.datum (.tome cell)
      = .tome ((s.entries cell).entries.map fun entry => (entry.1, s.datum entry.2)) := by
  obtain ⟨n, hn⟩ := exists_cells_eq_succ h rfl
  rw [datum, hn, datumWithin]
  refine congrArg Datum.tome (List.map_congr_left fun entry hentry => ?_)
  rw [hs.datumWithin_of_encloses h hn (encloses_of_mem_entries hentry)]

/-- A fresh sequence stands for the data of the values it was made of. -/
theorem Sound.datum_newSequence (hs : s.Sound) {items : List Value} (h : ∀ v ∈ items, s.Has v) :
    (s.newSequence items).2.datum (s.newSequence items).1 = .sequence (items.map s.datum) := by
  have hitems : (s.newSequence items).2.items s.sequences.size = items :=
    contents_newSequence s items
  have hdatum : (s.newSequence items).2.datum (.sequence s.sequences.size) = _ :=
    (hs.newSequence h).datum_sequence has_newSequence
  rw [hitems] at hdatum
  exact hdatum.trans (congrArg Datum.sequence (List.map_congr_left fun v hv =>
    hs.datum_of_extends (extends_newSequence s items) (h v hv)))

/-- A fresh tome stands for the data of the values it was made of under their keys. -/
theorem Sound.datum_newTome (hs : s.Sound) {entries : Table Value}
    (h : ∀ v ∈ entries.values, s.Has v) :
    (s.newTome entries).2.datum (s.newTome entries).1
      = .tome (entries.entries.map fun entry => (entry.1, s.datum entry.2)) := by
  have hentries : (s.newTome entries).2.entries s.tomes.size = entries := by
    simp [Store.newTome, Store.entries]
  have hdatum : (s.newTome entries).2.datum (.tome s.tomes.size) = _ :=
    (hs.newTome h).datum_tome has_newTome
  rw [hentries] at hdatum
  refine hdatum.trans (congrArg Datum.tome (List.map_congr_left fun entry hentry => ?_))
  rw [hs.datum_of_extends (extends_newTome s entries) (h _ (List.mem_map_of_mem hentry))]

/-! ## Equality -/

theorem allEqual_of_forall₂ {α : Type} {same : α → α → Bool} {as bs : List α}
    (h : List.Forall₂ (fun a b => same a b = true) as bs) : allEqual same as bs = true := by
  induction h with
  | nil => rfl
  | cons hab _ ih => rw [allEqual, hab, ih, Bool.and_self]

theorem equalWithin_of_same_of_not_isContainer {depth : Nat} (hv : v.isContainer = false)
    (h : (s.datumWithin depth v).Same (s.datumWithin depth w)) :
    s.equalWithin depth v w = true := by
  cases v with
  | sequence cell | tome cell => cases hv
  | _ =>
    -- the datum has the constructor of the value, so `w` has the same
    cases depth <;> cases w <;> simp only [datumWithin] at h <;> cases h <;> simp [equalWithin, *]

/-- Values that stand for the same datum are equal. -/
theorem equalWithin_of_same {depth : Nat} (hv : s.NestsWithin depth v)
    (h : (s.datumWithin depth v).Same (s.datumWithin depth w)) :
    s.equalWithin depth v w = true := by
  induction depth generalizing v w with
  | zero => exact equalWithin_of_same_of_not_isContainer hv h
  | succ depth ih =>
    cases v with
    | sequence cell =>
      cases w <;> simp only [datumWithin] at h <;> cases h
      next other hitems =>
      rw [List.forall₂_map_left_iff, List.forall₂_map_right_iff] at hitems
      have hnext : ∀ a ∈ s.items cell, s.NestsWithin depth a := hv
      have hsame := ((List.forall₂_and_left _ _).2 ⟨hnext, hitems⟩).imp fun _ _ h => ih h.1 h.2
      rw [equalWithin, allEqual_of_forall₂ hsame, Bool.or_true]
    | tome cell =>
      cases w <;> simp only [datumWithin] at h <;> cases h
      next other hkeys hvalues =>
      simp only [List.map_map, List.forall₂_map_left_iff, List.forall₂_map_right_iff] at hvalues
      rw [← List.forall₂_eq_eq_eq, List.forall₂_map_left_iff, List.forall₂_map_right_iff,
        List.forall₂_map_left_iff, List.forall₂_map_right_iff] at hkeys
      have hnext : ∀ entry ∈ (s.entries cell).entries, s.NestsWithin depth entry.2 :=
        fun entry hentry => hv entry.2 (encloses_of_mem_entries hentry)
      have hsame := ((List.forall₂_and_left _ _).2 ⟨hnext, hvalues⟩).imp fun _ _ h => ih h.1 h.2
      rw [equalWithin, allEqual_of_forall₂ (hkeys.mp (fun e f hkey hvalue => ?_) hsame),
        Bool.or_true]
      rw [Bool.and_eq_true, beq_iff_eq]
      exact ⟨hkey, hvalue⟩
    | _ => exact equalWithin_of_same_of_not_isContainer rfl h

theorem Sound.equal_of_same (hs : s.Sound) (hv : s.Has v) (h : (s.datum v).Same (s.datum w)) :
    s.equal v w = true :=
  equalWithin_of_same (hs.nestsWithin hv) h

end Store

end Grimoire
