import Grimoire.Proofs.Data
import Grimoire.Proofs.Documents
import Grimoire.Store.Document

/-!
# What the documents of values say

A document says of a datum all but what documents cannot say: a timestamp is its text, a number
that is not finite is no value, and an entry of a tome without a value is left out. A value has a
document unless a shape or a module is somewhere in it.
-/

namespace Grimoire

open Relation

/-! ## What documents say -/

namespace Datum

/-- Whether there is no value. -/
def isUndefined : Datum → Bool
  | undefined => true
  | _ => false

mutual

/-- What is left of a datum in a document. -/
def norm : Datum → Datum
  | undefined => undefined
  | boolean b => boolean b
  | number x => if x.isFinite then number x else undefined
  | string text => string text
  | timestamp t => string t.isoText
  | shape f => shape f
  | module m => module m
  | sequence items => sequence (normItems items)
  | tome entries => tome (normEntries entries)

/-- What is left of the elements of a sequence: all of them. -/
def normItems : List Datum → List Datum
  | [] => []
  | item :: rest => norm item :: normItems rest

/-- What is left of the entries of a tome: those with a value. -/
def normEntries : List (Text × Datum) → List (Text × Datum)
  | [] => []
  | (key, value) :: rest =>
    if value.isUndefined then normEntries rest else (key, norm value) :: normEntries rest

end

theorem normItems_eq_map (items : List Datum) : normItems items = items.map norm := by
  induction items with
  | nil => rfl
  | cons item rest ih => rw [normItems, ih, List.map_cons]

theorem normEntries_eq_map (entries : List (Text × Datum)) : normEntries entries
    = (entries.filter fun entry => !entry.2.isUndefined).map fun entry =>
      (entry.1, norm entry.2) := by
  induction entries with
  | nil => rfl
  | cons entry rest ih =>
    obtain ⟨key, value⟩ := entry
    rw [normEntries, ih]
    cases h : value.isUndefined <;> simp [h]

end Datum

namespace Json

mutual

/-- The datum that a document says. -/
def datum : Json → Datum
  | null => .undefined
  | boolean b => .boolean b
  | number x => .number x
  | string text => .string text
  | array elements => .sequence (elementData elements)
  | object members => .tome (memberData members)

/-- The data of the elements of an array. -/
def elementData : List Json → List Datum
  | [] => []
  | element :: rest => datum element :: elementData rest

/-- The data of the members of an object, under their names. -/
def memberData : List (Text × Json) → List (Text × Datum)
  | [] => []
  | (name, value) :: rest => (name, datum value) :: memberData rest

end

theorem elementData_eq_map (elements : List Json) : elementData elements = elements.map datum := by
  induction elements with
  | nil => rfl
  | cons element rest ih => rw [elementData, ih, List.map_cons]

theorem memberData_eq_map (members : List (Text × Json)) :
    memberData members = members.map fun member => (member.1, datum member.2) := by
  induction members with
  | nil => rfl
  | cons member rest ih => rw [memberData, ih, List.map_cons]

end Json

/-! ## Lists of computations that may fail -/

section Lists

variable {ε α β : Type} {f : α → Except ε β} {as : List α} {bs : List β}

/-- A list that comes to an end has one result for each of its elements. -/
theorem forall₂_of_mapM_eq_ok (h : as.mapM f = .ok bs) :
    List.Forall₂ (fun a b => f a = .ok b) as bs := by
  induction as generalizing bs with
  | nil =>
    rw [List.mapM_nil] at h
    cases h
    exact .nil
  | cons a as ih =>
    rw [List.mapM_cons] at h
    cases ha : f a with
    | error e => rw [ha] at h; cases h
    | ok b =>
      rw [ha] at h
      cases has : as.mapM f with
      | error e => rw [has] at h; cases h
      | ok bs' =>
        rw [has] at h
        cases h
        exact .cons ha (ih has)

/-- A list fails exactly when one of its elements does. -/
theorem exists_mapM_eq_error_iff :
    (∃ e, as.mapM f = .error e) ↔ ∃ a ∈ as, ∃ e, f a = .error e := by
  induction as with
  | nil =>
    simp only [List.mapM_nil, List.not_mem_nil, false_and, exists_false, iff_false, not_exists]
    intro e h
    cases h
  | cons a as ih =>
    rw [List.exists_mem_cons_iff, ← ih, List.mapM_cons]
    cases ha : f a with
    | error e => simp [bind, Except.bind]
    | ok b =>
      cases as.mapM f <;> simp [bind, Except.bind, pure, Except.pure]

theorem bind_pure_eq_ok_iff {x : Except ε α} {g : α → β} {b : β} :
    (do return g (← x)) = Except.ok b ↔ ∃ a, x = .ok a ∧ g a = b := by
  cases x <;> simp [bind, Except.bind, pure, Except.pure]

theorem exists_bind_pure_eq_error_iff {x : Except ε α} {g : α → β} :
    (∃ e, (do return g (← x)) = Except.error e) ↔ ∃ e, x = .error e := by
  cases x <;> simp [bind, Except.bind, pure, Except.pure]

theorem exists_mem_of_forall₂ {R : α → β → Prop} (h : List.Forall₂ R as bs) {b : β}
    (hb : b ∈ bs) : ∃ a ∈ as, R a b := by
  induction h with
  | nil => cases hb
  | cons hab _ ih =>
    rcases List.mem_cons.1 hb with rfl | hb
    · exact ⟨_, List.mem_cons_self, hab⟩
    · obtain ⟨a, ha, h⟩ := ih hb
      exact ⟨a, List.mem_cons_of_mem _ ha, h⟩

theorem map_eq_map_of_forall₂ {γ : Type} {g : α → γ} {g' : β → γ}
    (h : List.Forall₂ (fun a b => g' b = g a) as bs) : bs.map g' = as.map g := by
  induction h with
  | nil => rfl
  | cons hab _ ih => rw [List.map_cons, List.map_cons, hab, ih]

end Lists

/-! ## Encoding -/

namespace Value

/-- Whether a value has no document: shapes and modules have none. -/
def isOpaque : Value → Bool
  | shape _ | module _ => true
  | _ => false

end Value

namespace Store

variable {s : Store} {v w : Value} {depth : Nat}

/-- What is reached from a container is itself, or is reached from what it holds. -/
theorem exists_reached_iff {p : Value → Prop} (hv : ¬ p v) :
    (∃ w, ReflTransGen s.Encloses v w ∧ p w)
      ↔ ∃ u, s.Encloses v u ∧ ∃ w, ReflTransGen s.Encloses u w ∧ p w := by
  constructor
  · rintro ⟨w, hreach, hw⟩
    rcases hreach.cases_head with rfl | ⟨u, hvu, huw⟩
    · exact absurd hw hv
    · exact ⟨u, hvu, w, huw, hw⟩
  · rintro ⟨u, hvu, w, huw, hw⟩
    exact ⟨w, huw.head hvu, hw⟩

theorem eq_of_reflTransGen_of_not_isContainer (hv : v.isContainer = false)
    (h : ReflTransGen s.Encloses v w) : w = v := by
  rcases h.cases_head with rfl | ⟨u, hvu, -⟩
  · rfl
  · exact absurd hvu.has.1 (by simp [hv])

theorem exists_documentWithin_eq_error_iff_of_not_isContainer (hv : v.isContainer = false) :
    (∃ fault, s.documentWithin depth v = .error fault)
      ↔ ∃ w, ReflTransGen s.Encloses v w ∧ w.isOpaque = true := by
  have hself : (∃ w, ReflTransGen s.Encloses v w ∧ w.isOpaque = true) ↔ v.isOpaque = true :=
    ⟨fun ⟨w, hreach, hw⟩ => eq_of_reflTransGen_of_not_isContainer hv hreach ▸ hw,
      fun hw => ⟨v, .refl, hw⟩⟩
  rw [hself]
  cases v with
  | sequence cell | tome cell => cases hv
  | _ => cases depth <;> simp [documentWithin, Value.isOpaque]

/-- There is no document exactly when a shape or a module is reached. -/
theorem exists_documentWithin_eq_error_iff (h : s.NestsWithin depth v) :
    (∃ fault, s.documentWithin depth v = .error fault)
      ↔ ∃ w, ReflTransGen s.Encloses v w ∧ w.isOpaque = true := by
  induction depth generalizing v with
  | zero => exact exists_documentWithin_eq_error_iff_of_not_isContainer h
  | succ depth ih =>
    cases v with
    | sequence cell =>
      rw [exists_reached_iff (by simp [Value.isOpaque]), documentWithin,
        exists_bind_pure_eq_error_iff, exists_mapM_eq_error_iff]
      exact exists_congr fun u => and_congr_right fun hu => ih (h u hu)
    | tome cell =>
      rw [exists_reached_iff (by simp [Value.isOpaque]), documentWithin,
        exists_bind_pure_eq_error_iff, exists_mapM_eq_error_iff]
      constructor
      · rintro ⟨entry, hentry, hfault⟩
        have hmem := encloses_of_mem_entries (List.mem_of_mem_filter hentry)
        exact ⟨entry.2, hmem, (ih (h _ hmem)).1 (exists_bind_pure_eq_error_iff.1 hfault)⟩
      · rintro ⟨u, hu, hreached⟩
        obtain ⟨entry, hentry, rfl⟩ := List.mem_map.1 hu
        have hfault := (ih (h _ hu)).2 hreached
        refine ⟨entry, List.mem_filter.2 ⟨hentry, ?_⟩, exists_bind_pure_eq_error_iff.2 hfault⟩
        -- an absent value has a document, so it is not what fails
        rw [decide_eq_true_iff]
        intro habsent
        obtain ⟨fault, hfault⟩ := hfault
        rw [habsent] at hfault
        simp [documentWithin] at hfault
    | _ => exact exists_documentWithin_eq_error_iff_of_not_isContainer rfl

/-- The document of a sequence has the documents of its elements. -/
theorem exists_of_documentWithin_sequence {cell : Nat} {j : Json}
    (h : s.documentWithin (depth + 1) (.sequence cell) = .ok j) :
    ∃ elements, j = .array elements ∧
      List.Forall₂ (fun item e => s.documentWithin depth item = .ok e) (s.items cell) elements := by
  rw [documentWithin, bind_pure_eq_ok_iff] at h
  obtain ⟨elements, helements, rfl⟩ := h
  exact ⟨elements, rfl, forall₂_of_mapM_eq_ok helements⟩

/-- The entries of a tome that have a value. -/
def present (s : Store) (cell : Nat) : List (Text × Value) :=
  (s.entries cell).entries.filter fun entry => entry.2 ≠ .undefined

/-- The document of a tome has the documents of the values that are present. -/
theorem exists_of_documentWithin_tome {cell : Nat} {j : Json}
    (h : s.documentWithin (depth + 1) (.tome cell) = .ok j) :
    ∃ members, j = .object members ∧
      List.Forall₂ (fun entry m => m.1 = entry.1 ∧ s.documentWithin depth entry.2 = .ok m.2)
        (s.present cell) members := by
  rw [documentWithin, bind_pure_eq_ok_iff] at h
  obtain ⟨members, hmembers, rfl⟩ := h
  refine ⟨members, rfl, (forall₂_of_mapM_eq_ok hmembers).imp fun entry m hm => ?_⟩
  obtain ⟨e, he, rfl⟩ := bind_pure_eq_ok_iff.1 hm
  exact ⟨rfl, he⟩

theorem isUndefined_datumWithin :
    (s.datumWithin depth v).isUndefined = decide (v = .undefined) := by
  cases depth <;> cases v <;> simp [datumWithin, Datum.isUndefined]

theorem datum_of_documentWithin_of_not_isContainer {j : Json} (hv : v.isContainer = false)
    (h : s.documentWithin depth v = .ok j) : j.datum = (s.datumWithin depth v).norm := by
  cases v with
  | sequence cell | tome cell => cases hv
  | shape f | module m => simp [documentWithin] at h
  | number x =>
    simp only [documentWithin, Except.ok.injEq] at h
    rw [← h, datumWithin, Datum.norm]
    split <;> simp only [Json.datum]
  | _ =>
    simp only [documentWithin, Except.ok.injEq] at h
    rw [← h]
    simp only [datumWithin, Datum.norm, Json.datum]

theorem norm_datumWithin_sequence (cell : Nat) :
    (s.datumWithin (depth + 1) (.sequence cell)).norm
      = .sequence ((s.items cell).map fun item => (s.datumWithin depth item).norm) := by
  rw [datumWithin, Datum.norm, Datum.normItems_eq_map, List.map_map]
  rfl

theorem norm_datumWithin_tome (cell : Nat) :
    (s.datumWithin (depth + 1) (.tome cell)).norm
      = .tome ((s.present cell).map fun entry =>
        (entry.1, (s.datumWithin depth entry.2).norm)) := by
  have hpresent : ((fun entry : Text × Datum => !entry.2.isUndefined) ∘
      fun entry : Text × Value => (entry.1, s.datumWithin depth entry.2))
      = fun entry => decide (entry.2 ≠ .undefined) := by
    funext entry
    simp [isUndefined_datumWithin]
  rw [datumWithin, Datum.norm, Datum.normEntries_eq_map, List.filter_map, List.map_map, hpresent]
  rfl

/-- A document says what is left of the datum. -/
theorem datum_of_documentWithin {j : Json} (h : s.documentWithin depth v = .ok j) :
    j.datum = (s.datumWithin depth v).norm := by
  induction depth generalizing v j with
  | zero =>
    cases v with
    | sequence cell | tome cell => cases h; rfl
    | _ => exact datum_of_documentWithin_of_not_isContainer rfl h
  | succ depth ih =>
    cases v with
    | sequence cell =>
      obtain ⟨elements, rfl, helements⟩ := exists_of_documentWithin_sequence h
      rw [Json.datum, Json.elementData_eq_map, norm_datumWithin_sequence]
      exact congrArg Datum.sequence (map_eq_map_of_forall₂ (helements.imp fun _ _ h => ih h))
    | tome cell =>
      obtain ⟨members, rfl, hmembers⟩ := exists_of_documentWithin_tome h
      rw [Json.datum, Json.memberData_eq_map, norm_datumWithin_tome]
      refine congrArg Datum.tome (map_eq_map_of_forall₂ (hmembers.imp fun entry m hm => ?_))
      rw [hm.1, ih hm.2]
    | _ => exact datum_of_documentWithin_of_not_isContainer rfl h

theorem regular_of_documentWithin_of_not_isContainer {ok : Number → Prop} {bound : Nat} {j : Json}
    (hv : v.isContainer = false) (h : s.documentWithin bound v = .ok j)
    (hnumbers : ∀ x, v = .number x → x.isFinite = true → ok x) : Json.Regular ok depth j := by
  cases v with
  | sequence cell | tome cell => cases hv
  | shape f | module m => simp [documentWithin] at h
  | number x =>
    simp only [documentWithin, Except.ok.injEq] at h
    rw [← h]
    split
    · next hx => simpa only [Json.Regular] using hnumbers x rfl hx
    · simp only [Json.Regular]
  | _ =>
    simp only [documentWithin, Except.ok.injEq] at h
    rw [← h]
    simp only [Json.Regular]

/-- A document is nested no deeper than its value, has each name once, and has the finite numbers
of the value. -/
theorem regular_of_documentWithin {ok : Number → Prop} {bound : Nat} {j : Json}
    (h : s.documentWithin bound v = .ok j) (hdepth : s.NestsWithin depth v)
    (hnumbers : ∀ x, ReflTransGen s.Encloses v (.number x) → x.isFinite = true → ok x) :
    Json.Regular ok depth j := by
  have hself : ∀ x, v = .number x → x.isFinite = true → ok x :=
    fun x hx => hnumbers x (hx ▸ .refl)
  -- the induction is on how deep the value is nested; the bound of the document only has to allow it
  induction depth generalizing v bound j with
  | zero => exact regular_of_documentWithin_of_not_isContainer hdepth h hself
  | succ depth ih =>
    have hnext : ∀ {bound w j}, s.Encloses v w → s.documentWithin bound w = .ok j →
        Json.Regular ok depth j := by
      intro bound w j hw hj
      have hbelow : ∀ x, ReflTransGen s.Encloses w (.number x) → x.isFinite = true → ok x :=
        fun x hx => hnumbers x (hx.head hw)
      exact ih hj (hdepth w hw) hbelow fun x hx => hbelow x (hx ▸ .refl)
    cases v with
    | sequence cell =>
      cases bound with
      | zero => cases h; simp [Json.Regular]
      | succ bound =>
        obtain ⟨elements, rfl, helements⟩ := exists_of_documentWithin_sequence h
        rw [Json.Regular]
        intro e he
        obtain ⟨item, hitem, hdocument⟩ := exists_mem_of_forall₂ helements he
        exact hnext (encloses_of_mem_items hitem) hdocument
    | tome cell =>
      cases bound with
      | zero => cases h; simp [Json.Regular]
      | succ bound =>
        obtain ⟨members, rfl, hmembers⟩ := exists_of_documentWithin_tome h
        have hnames : members.map Prod.fst = (s.present cell).map Prod.fst :=
          map_eq_map_of_forall₂ (hmembers.imp fun _ _ hm => hm.1)
        rw [Json.Regular, hnames]
        refine ⟨(s.entries cell).distinct.sublist (List.filter_sublist.map Prod.fst), ?_⟩
        intro m hm
        obtain ⟨entry, hentry, -, hdocument⟩ := exists_mem_of_forall₂ hmembers hm
        exact hnext (encloses_of_mem_entries (List.mem_of_mem_filter hentry)) hdocument
    | _ => exact regular_of_documentWithin_of_not_isContainer rfl h hself

end Store

end Grimoire
