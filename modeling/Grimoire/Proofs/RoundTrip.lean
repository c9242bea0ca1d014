import Grimoire.Proofs.Encoding
import Grimoire.Proofs.Evaluation.Resources
import Grimoire.Proofs.WholeNumbers

/-!
# Values through JSON and back

Decoding the text of a value gives a value with the same datum but for what documents cannot say.
Integers are read back by what the writer and the reader are; of other numbers it has to be known
that the reader finds them in their digits.
-/

namespace Grimoire

open Relation

/-! ## Numbers -/

namespace Json

/-- Whether a number is written as an integer. -/
def WritesInteger (x : Number) : Prop :=
  x.isWhole = true ∧ -maxSafeInteger ≤ x.truncate ∧ x.truncate ≤ maxSafeInteger

/-- Whether the reader finds a number in the shortest digits that are written for it. -/
def ReadsBack (x : Number) : Prop :=
  ∃ y, takeNumber? (numberLayout.write x) = some (y, []) ∧ (y == x) = true

/-- What is read from the text of a number. -/
def reread (x : Number) : Number :=
  ((takeNumber? (writeNumber x)).map Prod.fst).getD x

/-- The text of a number reads back as that number. -/
def Rereads (x : Number) : Prop :=
  ReadsAs reread x ∧ (reread x == x) = true

theorem rereads_of_exists {x y : Number} (h : takeNumber? (writeNumber x) = some (y, []))
    (hy : (y == x) = true) : Rereads x := by
  have hreread : reread x = y := by rw [reread, h]; rfl
  rw [Rereads, ReadsAs, hreread]
  exact ⟨h, hy⟩

/-- Integers are always read back, so only other numbers depend on the digits. -/
theorem rereads_of_readsBack {x : Number} (h : ¬ WritesInteger x → ReadsBack x) : Rereads x := by
  by_cases hinteger : WritesInteger x
  · have hwrite : writeNumber x = Text.ofInt x.truncate := if_pos hinteger
    obtain ⟨y, hread, hy⟩ := exists_takeNumber?_ofInt hinteger.1 hinteger.2.1 hinteger.2.2
    exact rereads_of_exists (hwrite ▸ hread) hy
  · have hwrite : writeNumber x = numberLayout.write x := if_neg hinteger
    obtain ⟨y, hread, hy⟩ := h hinteger
    exact rereads_of_exists (hwrite ▸ hread) hy

end Json

namespace Value

/-- Whether a value comes back as it was: absent values, timestamps and numbers that are not finite
do not. -/
def isPlain : Value → Bool
  | string _ | boolean _ | sequence _ | tome _ => true
  | number x => x.isFinite
  | _ => false

end Value

namespace Store

/-! ## Decoding -/

variable {s : Store} {v w : Value} {depth : Nat} {f : Number → Number} {j : Json}

/-- What is built from a document, in any sound store, stands for what the document says. -/
def BuildsSame (f : Number → Number) (j : Json) : Prop :=
  ∀ s : Store, s.Sound →
    ((build (j.mapNumbers f) s).2.datum (build (j.mapNumbers f) s).1).Same j.datum

theorem same_buildElements {elements : List Json} (h : ∀ e ∈ elements, BuildsSame f e)
    (hs : s.Sound) :
    List.Forall₂ Datum.Same
      ((buildElements (Json.mapElements f elements) s).1.map
        (buildElements (Json.mapElements f elements) s).2.datum)
      (elements.map Json.datum) := by
  induction elements generalizing s with
  | nil => exact .nil
  | cons e rest ih =>
    have hfirst := built_build (D := .acyclic) hs (e.mapNumbers f)
    have hrest := built_buildElements (D := .acyclic) hfirst.sound (Json.mapElements f rest)
    rw [Json.mapElements, buildElements, List.map_cons, List.map_cons]
    refine .cons ?_ (ih (fun d hd => h d (List.mem_cons_of_mem e hd)) hfirst.sound)
    -- the first element stands for the same when the others are there
    rw [Sound.datum_of_extends hfirst.sound hrest.grows hfirst.result]
    exact h e List.mem_cons_self s hs

theorem map_fst_buildMembers (members : List (Text × Json)) (s : Store) :
    (buildMembers (Json.mapMembers f members) s).1.map Prod.fst = members.map Prod.fst := by
  induction members generalizing s with
  | nil => rfl
  | cons m rest ih =>
    rw [Json.mapMembers, buildMembers, List.map_cons, List.map_cons, ih]

theorem same_buildMembers {members : List (Text × Json)} (h : ∀ m ∈ members, BuildsSame f m.2)
    (hs : s.Sound) :
    List.Forall₂ Datum.Same
      ((buildMembers (Json.mapMembers f members) s).1.map fun entry =>
        (buildMembers (Json.mapMembers f members) s).2.datum entry.2)
      (members.map fun m => m.2.datum) := by
  induction members generalizing s with
  | nil => exact .nil
  | cons m rest ih =>
    have hfirst := built_build (D := .acyclic) hs (m.2.mapNumbers f)
    have hrest := built_buildMembers (D := .acyclic) hfirst.sound (Json.mapMembers f rest)
    rw [Json.mapMembers, buildMembers, List.map_cons, List.map_cons]
    refine .cons ?_ (ih (fun d hd => h d (List.mem_cons_of_mem m hd)) hfirst.sound)
    rw [Sound.datum_of_extends hfirst.sound hrest.grows hfirst.result]
    exact h m List.mem_cons_self s hs

theorem buildsSame_array {elements : List Json} (h : ∀ e ∈ elements, BuildsSame f e) :
    BuildsSame f (.array elements) := by
  intro s hs
  have hbuilt := built_buildElements (D := .acyclic) hs (Json.mapElements f elements)
  rw [Json.mapNumbers, build, Json.datum, Json.elementData_eq_map,
    Sound.datum_newSequence hbuilt.sound hbuilt.result]
  exact .sequence (same_buildElements h hs)

theorem buildsSame_object {members : List (Text × Json)} (h : ∀ m ∈ members, BuildsSame f m.2)
    (hnames : (members.map Prod.fst).Nodup) : BuildsSame f (.object members) := by
  intro s hs
  have hbuilt := built_buildMembers (D := .acyclic) hs (Json.mapMembers f members)
  have hkeys := map_fst_buildMembers (f := f) members s
  have hentries := Table.entries_ofList (hkeys ▸ hnames)
  rw [Json.mapNumbers, build, Json.datum, Json.memberData_eq_map,
    Sound.datum_newTome hbuilt.sound (Discipline.validTable_ofList hbuilt.result), hentries]
  refine .tome ?_ ?_
  · rw [List.map_map, List.map_map]
    exact hkeys
  · rw [List.map_map, List.map_map]
    exact same_buildMembers h hs

/-- A regular document builds what it says if its numbers are read as equal ones. -/
theorem buildsSame_of_regular : ∀ (depth : Nat) {j : Json},
    j.Regular (fun x => (f x == x) = true) depth → BuildsSame f j
  | _, .null, _ => fun s _ => by
    simpa only [Json.mapNumbers, build, datum, datumWithin, Json.datum] using .undefined
  | _, .boolean b, _ => fun s _ => by
    simpa only [Json.mapNumbers, build, datum, datumWithin, Json.datum] using .boolean b
  | _, .string text, _ => fun s _ => by
    simpa only [Json.mapNumbers, build, datum, datumWithin, Json.datum] using .string text
  | 0, .number x, h | _ + 1, .number x, h => fun s _ => by
    simpa only [Json.mapNumbers, build, datum, datumWithin, Json.datum] using .number h
  | 0, .array _, h | 0, .object _, h => h.elim
  | depth + 1, .array _, h => buildsSame_array fun e he => buildsSame_of_regular depth (h e he)
  | depth + 1, .object _, h =>
    buildsSame_object (fun m hm => buildsSame_of_regular depth (h.2 m hm)) h.1

/-! ## Values that come back -/

theorem norm_datumWithin_of_not_isContainer (hv : v.isContainer = false)
    (hplain : v.isPlain = true) : (s.datumWithin depth v).norm = s.datumWithin depth v := by
  cases v with
  | sequence cell | tome cell => cases hv
  | timestamp t | shape f | module m | undefined => cases hplain
  | number x =>
    have hfinite : x.isFinite = true := hplain
    rw [datumWithin, Datum.norm, if_pos hfinite]
  | string text | boolean b => simp only [datumWithin, Datum.norm]

/-- Nothing is lost of data in which everything is plain. -/
theorem norm_datumWithin_of_isPlain (h : ∀ w, ReflTransGen s.Encloses v w → w.isPlain = true) :
    (s.datumWithin depth v).norm = s.datumWithin depth v := by
  induction depth generalizing v with
  | zero =>
    cases v with
    | sequence cell | tome cell => rfl
    | _ => exact norm_datumWithin_of_not_isContainer rfl (h _ .refl)
  | succ depth ih =>
    have hnext : ∀ w, s.Encloses v w → (s.datumWithin depth w).norm = s.datumWithin depth w :=
      fun w hw => ih fun u hu => h u (hu.head hw)
    cases v with
    | sequence cell =>
      rw [norm_datumWithin_sequence, datumWithin]
      exact congrArg Datum.sequence (List.map_congr_left fun w hw =>
        hnext w (encloses_of_mem_items hw))
    | tome cell =>
      -- an absent value is not plain, so no entry is left out
      have hpresent : s.present cell = (s.entries cell).entries := by
        refine List.filter_eq_self.2 fun entry hentry => ?_
        have hplain := h entry.2 (.single (encloses_of_mem_entries hentry))
        rw [decide_eq_true_iff]
        intro habsent
        rw [habsent] at hplain
        cases hplain
      rw [norm_datumWithin_tome, hpresent, datumWithin]
      refine congrArg Datum.tome (List.map_congr_left fun entry hentry => ?_)
      rw [hnext entry.2 (encloses_of_mem_entries hentry)]
    | _ => exact norm_datumWithin_of_not_isContainer rfl (h _ .refl)

/-- A text that is decoded, in any sound store, to a value that stands for a datum. -/
def DecodesTo (text : Text) (d : Datum) : Prop :=
  ∀ s : Store, s.Sound → ∃ w t, s.decode text = .ok (w, t) ∧ s.Extends t ∧ t.Sound ∧ t.Has w ∧
    (t.datum w).Same d

theorem decodesTo_write (hj : j.Regular Json.Rereads Json.maxDepth) :
    DecodesTo j.write j.datum := by
  intro s hs
  have hread := Json.read?_write (hj.imp (fun x hx => hx.1))
  have hbuilt := built_build (D := .acyclic) hs (j.mapNumbers Json.reread)
  refine ⟨_, _, by rw [decode, hread], hbuilt.grows, hbuilt.sound, hbuilt.result, ?_⟩
  exact buildsSame_of_regular Json.maxDepth (hj.imp (fun x hx => hx.2)) s hs

/-- A value has a text exactly when no shape or module is reached from it. -/
theorem exists_encode_eq_error_iff (hs : s.Sound) (hv : s.Has v) :
    (∃ fault, s.encode v = .error fault)
      ↔ ∃ w, ReflTransGen s.Encloses v w ∧ w.isOpaque = true := by
  rw [← exists_documentWithin_eq_error_iff (hs.nestsWithin hv)]
  unfold encode document
  cases s.documentWithin s.cells v <;> simp [Except.map]

/-- The text of a value is decoded to what is left of it. -/
theorem exists_encode_eq_ok (hs : s.Sound) (hv : s.Has v)
    (hclear : ∀ w, ReflTransGen s.Encloses v w → w.isOpaque = false)
    (hdepth : s.NestsWithin Json.maxDepth v)
    (hnumbers : ∀ x, ReflTransGen s.Encloses v (.number x) → x.isFinite = true →
      Json.Rereads x) :
    ∃ text, s.encode v = .ok text ∧ DecodesTo text (s.datum v).norm := by
  cases hdocument : s.documentWithin s.cells v with
  | error fault =>
    obtain ⟨w, hreach, hw⟩ :=
      (exists_documentWithin_eq_error_iff (hs.nestsWithin hv)).1 ⟨fault, hdocument⟩
    rw [hclear w hreach] at hw
    cases hw
  | ok j =>
    refine ⟨j.write, by rw [encode, document, hdocument]; rfl, ?_⟩
    rw [datum, ← datum_of_documentWithin hdocument]
    exact decodesTo_write (regular_of_documentWithin hdocument hdepth hnumbers)

/-- A value of a sound store has a JSON text unless a shape or a module is in it at some depth. If
it is nested no deeper than the reader goes, and its numbers other than integers are found in their
digits, the text is decoded to what is left of the value; and a value in which everything is plain
comes back equal. -/
theorem decode_encode (hs : s.Sound) (hv : s.Has v) :
    ((∃ fault, s.encode v = .error fault)
      ↔ ∃ w, ReflTransGen s.Encloses v w ∧ w.isOpaque = true) ∧
    (s.NestsWithin 127 v →
      (∀ x, ReflTransGen s.Encloses v (.number x) → x.isFinite = true →
        ¬ Json.WritesInteger x → Json.ReadsBack x) →
      ((∀ w, ReflTransGen s.Encloses v w → w.isOpaque = false) →
        ∃ text, s.encode v = .ok text ∧ DecodesTo text (s.datum v).norm) ∧
      ((∀ w, ReflTransGen s.Encloses v w → w.isPlain = true) →
        ∃ text w t, s.encode v = .ok text ∧ s.decode text = .ok (w, t) ∧
          t.equal w v = true)) := by
  refine ⟨exists_encode_eq_error_iff hs hv, fun hdepth hnumbers => ?_⟩
  have hrereads : ∀ x, ReflTransGen s.Encloses v (.number x) → x.isFinite = true →
      Json.Rereads x := fun x hx hfinite => Json.rereads_of_readsBack (hnumbers x hx hfinite)
  refine ⟨fun hclear => exists_encode_eq_ok hs hv hclear hdepth hrereads, fun hplain => ?_⟩
  -- shapes and modules are not plain, so there is a text, and nothing is lost in it
  have hclear : ∀ w, ReflTransGen s.Encloses v w → w.isOpaque = false := by
    intro w hreach
    have hw := hplain w hreach
    cases w <;> first | rfl | cases hw
  obtain ⟨text, htext, hdecodes⟩ := exists_encode_eq_ok hs hv hclear hdepth hrereads
  obtain ⟨w, t, hdecode, hgrows, ht, hw, hsame⟩ := hdecodes s hs
  refine ⟨text, w, t, htext, hdecode, ht.equal_of_same hw ?_⟩
  have hnorm : (s.datum v).norm = s.datum v := norm_datumWithin_of_isPlain hplain
  -- decoding adds cells, and the value that was encoded still stands for the same
  rwa [hs.datum_of_extends hgrows hv, ← hnorm]

/-- What is reached from a list of values that has everything they hold is in the list. -/
theorem mem_of_reflTransGen {values : List Value}
    (hvalues : ∀ v ∈ values, ∀ w ∈ s.contents v, w ∈ values) (hv : v ∈ values)
    (h : ReflTransGen s.Encloses v w) : w ∈ values := by
  induction h with
  | refl => exact hv
  | tail _ hstep ih => exact hvalues _ ih _ hstep

/-- The noon of a leap day. -/
def leapNoon : Timestamp :=
  ⟨⟨2024, 2, 29, by decide⟩, ⟨12, 0, 0, false, by decide⟩⟩

/-- A store with a tome that comes back changed and a sequence that comes back as it was. -/
def satchel : Store :=
  let s := (({} : Store).newSequence [.timestamp leapNoon, .number 2.5, .number Number.nan]).2
  let s := (s.newTome (.ofList [("found".toList, .sequence 0), ("lost".toList, .undefined)])).2
  (s.newSequence [.string "rune".toList, .number 2.5, .number 7, .boolean true]).2

theorem sound_satchel : satchel.Sound := by
  refine Sound.newSequence (Sound.newTome (Sound.newSequence .empty ?_) ?_) ?_
  · simp [Has]
  · intro v hv
    rcases List.mem_map.1 (Table.mem_values_ofList hv) with ⟨entry, hentry, rfl⟩
    rcases List.mem_pair.1 hentry with rfl | rfl <;> simp [Has, newSequence]
  · simp [Has]

theorem decode_encode_satchel :
    (∃ text, satchel.encode (.tome 0) = .ok text ∧
      DecodesTo text (.tome [("found".toList,
        .sequence [.string "2024-02-29T12:00:00".toList, .number 2.5, .undefined])])) ∧
    ∃ text w t, satchel.encode (.sequence 1) = .ok text ∧ satchel.decode text = .ok (w, t) ∧
      t.equal w (.sequence 1) = true := by
  have hdepth : ∀ v, satchel.Has v → satchel.NestsWithin 127 v :=
    fun v hv => (sound_satchel.nestsWithin hv).mono (by decide)
  have hread : Json.ReadsBack 2.5 := ⟨2.5, by decide, by decide⟩
  have htome : satchel.Has (.tome 0) := show 0 < 1 by decide
  have hsequence : satchel.Has (.sequence 1) := show 1 < 2 by decide
  constructor
  · have hvalues : ∀ w, ReflTransGen satchel.Encloses (.tome 0) w → w ∈ [.tome 0, .sequence 0,
        .undefined, .timestamp leapNoon, .number 2.5, .number Number.nan] :=
      fun w => mem_of_reflTransGen (by decide) (by decide)
    have hnorm : (satchel.datum (.tome 0)).norm = .tome [("found".toList,
        .sequence [.string "2024-02-29T12:00:00".toList, .number 2.5, .undefined])] := rfl
    rw [← hnorm]
    refine ((decode_encode sound_satchel htome).2 (hdepth _ htome) ?_).1 ?_
    · intro x hx hfinite _
      have hmem : x = 2.5 ∨ x = Number.nan := by simpa using hvalues _ hx
      rcases hmem with rfl | rfl
      · exact hread
      · exact absurd hfinite (by decide)
    · intro w hw
      have hall : ∀ w ∈ [Value.tome 0, .sequence 0, .undefined, .timestamp leapNoon, .number 2.5,
        .number Number.nan], w.isOpaque = false := by decide
      exact hall w (hvalues w hw)
  · have hvalues : ∀ w, ReflTransGen satchel.Encloses (.sequence 1) w → w ∈ [.sequence 1,
        .string "rune".toList, .number 2.5, .number 7, .boolean true] :=
      fun w => mem_of_reflTransGen (by decide) (by decide)
    refine ((decode_encode sound_satchel hsequence).2 (hdepth _ hsequence) ?_).2 ?_
    · intro x hx _ hinteger
      have hmem : x = 2.5 ∨ x = 7 := by simpa using hvalues _ hx
      rcases hmem with rfl | rfl
      · exact hread
      · exact absurd ⟨by decide, by decide, by decide⟩ hinteger
    · intro w hw
      have hall : ∀ w ∈ [Value.sequence 1, .string "rune".toList, .number 2.5, .number 7,
        .boolean true], w.isPlain = true := by decide
      exact hall w (hvalues w hw)

end Store

end Grimoire
