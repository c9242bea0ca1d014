import Grimoire.Proofs.InPlace
import Grimoire.Proofs.ReadBack
import Grimoire.Proofs.WholeNumbers

/-!
# Searching

A text is searched by its characters. Its bytes may be searched instead: a byte with which a
character begins is none of those inside a character, so a needle that is not empty occurs among the
bytes only where it occurs among the characters, and the first place in one count is the first in
the other. Looking for a needle, asking whether it is there and cutting it out again agree, in texts
and in arrays.
-/

namespace Grimoire

/-- The place `p` is the first in `s` at which `d` stands. -/
def FirstAt {α : Type} (d s : List α) (p : Nat) : Prop :=
  d <+: s.drop p ∧ ∀ q < p, ¬ d <+: s.drop q

theorem firstAt_zero {α : Type} {d s : List α} (h : d <+: s) : FirstAt d s 0 :=
  ⟨h, fun _ hq => absurd hq (Nat.not_lt_zero _)⟩

theorem firstAt_cons_succ {α : Type} {d s : List α} {a : α} {p : Nat} :
    FirstAt d (a :: s) (p + 1) ↔ ¬ d <+: a :: s ∧ FirstAt d s p := by
  constructor
  · rintro ⟨hhere, hfirst⟩
    exact ⟨hfirst 0 p.succ_pos, hhere, fun q hq => hfirst (q + 1) (Nat.succ_lt_succ hq)⟩
  · rintro ⟨hnot, hhere, hfirst⟩
    refine ⟨hhere, fun q hq => ?_⟩
    cases q with
    | zero => exact hnot
    | succ q => exact hfirst q (Nat.lt_of_succ_lt_succ hq)

theorem FirstAt.unique {α : Type} {d s : List α} {p q : Nat} (hp : FirstAt d s p)
    (hq : FirstAt d s q) : p = q :=
  Nat.le_antisymm (Nat.not_lt.1 fun hlt => hp.2 q hlt hq.1)
    (Nat.not_lt.1 fun hlt => hq.2 p hlt hp.1)

namespace Text

variable {d s : Text} {c : Char} {p : Nat}

/-! ## The first place -/

theorem findFrom_eq (d : Text) (start : Nat) (s : Text) :
    findFrom d start s = (find? d s).map (start + ·) := by
  induction s generalizing start with
  | nil =>
    rw [find?, findFrom, findFrom]
    cases d.isEmpty <;> rfl
  | cons c s ih =>
    rw [find?, findFrom, findFrom, ih, ih 1]
    split
    · rfl
    · rw [Option.map_map]
      exact congrArg (Option.map · _) (funext fun p => Nat.add_assoc start 1 p)

theorem find?_nil (d : Text) : find? d [] = if d.isEmpty then some 0 else none := rfl

theorem find?_cons (d : Text) (c : Char) (s : Text) :
    find? d (c :: s) = if d.isPrefixOf (c :: s) then some 0 else (find? d s).map (1 + ·) := by
  rw [find?, findFrom, findFrom_eq]

theorem find?_eq_none_iff : find? d s = none ↔ ¬ d <:+: s := by
  induction s with
  | nil =>
    rw [find?_nil, List.infix_nil, ← List.isEmpty_iff]
    split <;> simp [*]
  | cons c s ih =>
    rw [find?_cons, List.infix_cons_iff, not_or, ← List.isPrefixOf_iff_prefix, ← ih]
    split <;> simp [*]

theorem firstAt_of_find? (h : find? d s = some p) : FirstAt d s p := by
  induction s generalizing p with
  | nil =>
    rw [find?_nil] at h
    split at h
    · next hempty =>
      cases h
      rw [List.isEmpty_iff.1 hempty]
      exact firstAt_zero List.nil_prefix
    · cases h
  | cons c s ih =>
    rw [find?_cons] at h
    split at h
    · next hbegins =>
      cases h
      exact firstAt_zero (List.isPrefixOf_iff_prefix.1 hbegins)
    · next hbegins =>
      obtain ⟨q, hq, rfl⟩ := Option.map_eq_some_iff.1 h
      rw [Nat.add_comm, firstAt_cons_succ, ← List.isPrefixOf_iff_prefix]
      exact ⟨hbegins, ih hq⟩

/-- What stands at a place is cut out there. -/
theorem carve_of_firstAt (h : FirstAt d s p) : s.carve p d.length = d := by
  rw [carve, if_neg (by omega), Int.toNat_natCast, Int.toNat_natCast]
  exact (List.prefix_iff_eq_take.1 h.1).symm

/-! ## Bytes -/

/-- The bytes of a text in UTF-8. -/
def bytes (s : Text) : List UInt8 :=
  s.flatMap String.utf8EncodeChar

theorem bytes_cons (c : Char) (s : Text) : bytes (c :: s) = String.utf8EncodeChar c ++ bytes s :=
  rfl

theorem bytes_append (s t : Text) : bytes (s ++ t) = bytes s ++ bytes t :=
  List.flatMap_append

/-- A text is a beginning of another if its bytes are. -/
theorem bytes_prefix_bytes : bytes d <+: bytes s ↔ d <+: s := by
  constructor
  · rintro ⟨rest, hrest⟩
    refine List.isPrefix_of_utf8Encode_append_eq_utf8Encode rest.toByteArray ?_
    have hbytes := congrArg List.toByteArray hrest
    rwa [List.toByteArray_append] at hbytes
  · rintro ⟨rest, rfl⟩
    rw [bytes_append]
    exact List.prefix_append _ _

/-- No text that is not empty begins inside a character. -/
theorem not_bytes_prefix_drop (hd : d ≠ []) {a : Nat} (hpos : 0 < a) (ha : a < c.utf8Size) :
    ¬ bytes d <+: (bytes (c :: s)).drop a := by
  intro hbegins
  obtain ⟨e, d, rfl⟩ := List.exists_cons_of_ne_nil hd
  have he : 0 < (String.utf8EncodeChar e).length := by
    rw [String.length_utf8EncodeChar]
    exact e.utf8Size_pos
  have hc : a < (String.utf8EncodeChar c).length := by rwa [String.length_utf8EncodeChar]
  have hlength : 0 < (bytes (e :: d)).length := by
    rw [bytes_cons, List.length_append]
    omega
  have hbyte : (String.utf8EncodeChar e)[0] = (String.utf8EncodeChar c)[a] := by
    have hhead := hbegins.getElem hlength
    rw [List.getElem_drop] at hhead
    simp only [bytes_cons, Nat.add_zero] at hhead
    rwa [List.getElem_append_left he, List.getElem_append_left hc] at hhead
  have hfirst : (String.utf8EncodeChar e)[0].IsUTF8FirstByte :=
    UInt8.isUTF8FirstByte_getElem_utf8EncodeChar.2 rfl
  rw [hbyte, UInt8.isUTF8FirstByte_getElem_utf8EncodeChar] at hfirst
  omega

/-- The first place among the bytes is behind the bytes of the characters before the first place. -/
theorem firstAt_bytes (h : FirstAt d s p) :
    FirstAt (bytes d) (bytes s) (byteLength (s.take p)) := by
  induction s generalizing p with
  | nil =>
    rw [List.take_nil]
    exact firstAt_zero (bytes_prefix_bytes.2 (by simpa using h.1))
  | cons c s ih =>
    cases p with
    | zero => exact firstAt_zero (bytes_prefix_bytes.2 h.1)
    | succ p =>
      obtain ⟨hnot, hrest⟩ := firstAt_cons_succ.1 h
      obtain ⟨hhere, hfirst⟩ := ih hrest
      have hd : d ≠ [] := by
        rintro rfl
        exact hnot List.nil_prefix
      have hbehind : ∀ a, (bytes (c :: s)).drop (c.utf8Size + a) = (bytes s).drop a := by
        intro a
        rw [bytes_cons, ← String.length_utf8EncodeChar, List.drop_length_add_append]
      rw [List.take_succ_cons, byteLength_cons]
      refine ⟨by rwa [hbehind], fun a ha => ?_⟩
      rcases Nat.lt_or_ge a c.utf8Size with hinside | hafter
      · rcases Nat.eq_zero_or_pos a with rfl | hpos
        · rw [List.drop_zero, bytes_prefix_bytes]
          exact hnot
        · exact not_bytes_prefix_drop hd hpos hinside
      · obtain ⟨b, rfl⟩ := Nat.exists_eq_add_of_le hafter
        rw [hbehind]
        exact hfirst b (by omega)

end Text

/-! ## Needles and haystacks -/

namespace Collection

variable {s : Store} {needle v : Value} {cell p : Nat}

/-- The place of a needle in a string or in an array. -/
def place? (s : Store) (needle haystack : Value) : Option Nat :=
  match haystack with
  | .string text => Text.find? (s.display needle) text
  | .sequence cell => position? s needle (s.items cell)
  | _ => none

/-- A needle is in a haystack if it has a place there. -/
theorem contains_eq (s : Store) (haystack needle : Value) :
    contains s haystack needle = (place? s needle haystack).isSome := by
  cases haystack with
  | sequence cell => exact List.findIdx?_isSome.symm
  | _ => rfl

theorem position?_isSome_iff {items : List Value} :
    (position? s needle items).isSome = true ↔ ∃ v ∈ items, s.equal v needle = true := by
  rw [position?, List.findIdx?_isSome, List.any_eq_true]

/-- The element at the place of a needle is equal to it, and no earlier one is. -/
theorem equal_of_position? {items : List Value} (h : position? s needle items = some p) :
    (∃ v, items[p]? = some v ∧ s.equal v needle = true) ∧
      ∀ q < p, ∀ v, items[q]? = some v → s.equal v needle = false := by
  obtain ⟨hp, hequal, hfirst⟩ := List.findIdx?_eq_some_iff_getElem.1 h
  refine ⟨⟨items[p], List.getElem?_eq_getElem hp, hequal⟩, fun q hq v hv => ?_⟩
  obtain ⟨-, rfl⟩ := List.getElem?_eq_some_iff.1 hv
  exact Bool.eq_false_of_not_eq_true (hfirst q hq)

end Collection

/-- No place is minus one as a number. -/
theorem Number.beq_neg_one_place (place : Option Nat) :
    (place.elim (-1) Number.ofNat == -1) = place.isNone := by
  cases place with
  | none => decide
  | some p => exact Dyadic.beq_neg_one (Dyadic.signBit_ofNat p)

namespace Run

variable {σ : Type} {m m₁ m₂ m₃ : Machine σ} {left right line : Text} {needle haystack : Value}
  {g : Groups}

theorem run_holds_contains {text : Text}
    (hcondition : Condition.ofText text = .phrase .contains left right)
    (hneedle : (evaluate (Eval.value left)).run.run m = (.ok needle, m₁))
    (hhaystack : (evaluate (Eval.value right)).run.run m₁ = (.ok haystack, m₂)) :
    (evaluate (Eval.holds text)).run.run m =
      (.ok (Collection.place? m₂.store needle haystack).isSome, m₂) := by
  rw [Eval.holds, hcondition, Condition.eval, Condition.test, run_evaluate_bind_of_ok hneedle,
    run_evaluate_bind_of_ok hhaystack, ← Collection.contains_eq]
  rfl

variable [Host σ]

/-- A statement that searches binds the place of the needle. -/
theorem run_statement_seek (hform : Form.find? line = some (.computation .seek, g))
    (hneedle : (evaluate (g.value 1)).run.run m = (.ok needle, m₁))
    (hhaystack : (evaluate (g.value 2)).run.run m₁ = (.ok haystack, m₂))
    (hkind : (∃ text, haystack = .string text) ∨ ∃ cell, haystack = .sequence cell) :
    (statement line).run.run m = (bindName (g.text 3) (.number
      ((Collection.place? m₂.store needle haystack).elim (-1) Number.ofNat))).run.run m₂ := by
  apply run_statement_of_value (Form.isIdle_of_find? (by decide) (by decide) hform) hform
  show (evaluate (Computation.sought g)).run.run m = _
  rw [Computation.sought, run_evaluate_bind_of_ok hneedle, run_evaluate_bind_of_ok hhaystack]
  obtain ⟨text, rfl⟩ | ⟨cell, rfl⟩ := hkind <;> rfl

/-- A statement that asks for a needle binds whether it has a place. -/
theorem run_statement_contains (hform : Form.find? line = some (.computation .containsInto, g))
    (hneedle : (evaluate (g.value 1)).run.run m = (.ok needle, m₁))
    (hhaystack : (evaluate (g.value 2)).run.run m₁ = (.ok haystack, m₂)) :
    (statement line).run.run m = (bindName (g.text 3)
      (.boolean (Collection.place? m₂.store needle haystack).isSome)).run.run m₂ := by
  apply run_statement_of_value (Form.isIdle_of_find? (by decide) (by decide) hform) hform
  show (evaluate (Computation.containment g)).run.run m = _
  rw [Computation.containment, run_evaluate_bind_of_ok hneedle,
    run_evaluate_bind_of_ok hhaystack, ← Collection.contains_eq]
  rfl

/-- A statement that cuts binds what it cuts out. -/
theorem run_statement_carve (hform : Form.find? line = some (.computation .carve, g))
    {text : Text} {start : Number} {length : Int}
    (htext : (evaluate (g.display 1)).run.run m = (.ok text, m₁))
    (hstart : (evaluate (g.number 2)).run.run m₁ = (.ok start, m₂))
    (hlength : (evaluate (g.integer 3)).run.run m₂ = (.ok length, m₃)) :
    (statement line).run.run m =
      (bindName (g.text 4) (.string (text.carve start.truncate length))).run.run m₃ := by
  apply run_statement_of_value (Form.isIdle_of_find? (by decide) (by decide) hform) hform
  show (evaluate (Computation.carved g)).run.run m = _
  rw [Computation.carved, run_evaluate_bind_of_ok htext, run_evaluate_bind_of_ok hstart,
    run_evaluate_bind_of_ok hlength]
  rfl

/-- Let two operands be a needle and a string or an array. The condition that the needle is in the
haystack, the statement that asks the same and the statement that searches agree on whether the
needle has a place, which is what the last one binds; without a place it binds minus one, as it does
for no place. In an array this is the place of the first element that is equal to the needle. In a
string it is the place of the first character at which the needle's display text stands, also when
the bytes are searched and the characters before are counted, and as many characters as the display
text has are the display text when they are cut out there. A statement that cuts finds the place
below `2 ^ 53` in the number that was bound. -/
theorem search_membership_and_slicing_agree
    (hneedle : (evaluate (Eval.value left)).run.run m = (.ok needle, m₁))
    (hhaystack : (evaluate (Eval.value right)).run.run m₁ = (.ok haystack, m₂))
    (hkind : (∃ text, haystack = .string text) ∨ ∃ cell, haystack = .sequence cell) :
    ∃ place : Option Nat,
      (∀ text, Condition.ofText text = .phrase .contains left right →
        (evaluate (Eval.holds text)).run.run m = (.ok place.isSome, m₂)) ∧
      (∀ line g, Form.find? line = some (.computation .containsInto, g) → g.text 1 = left →
        g.text 2 = right → (statement line).run.run m =
          (bindName (g.text 3) (.boolean place.isSome)).run.run m₂) ∧
      (∀ line g, Form.find? line = some (.computation .seek, g) → g.text 1 = left →
        g.text 2 = right → (statement line).run.run m =
          (bindName (g.text 3) (.number (place.elim (-1) Number.ofNat))).run.run m₂) ∧
      (place.isSome = true ↔ (place.elim (-1) Number.ofNat == -1) = false) ∧
      (∀ cell, haystack = .sequence cell →
        (place.isSome = true ↔ ∃ v ∈ m₂.store.items cell, m₂.store.equal v needle = true) ∧
        ∀ p, place = some p →
          (∃ v, (m₂.store.items cell)[p]? = some v ∧ m₂.store.equal v needle = true) ∧
          ∀ q < p, ∀ v, (m₂.store.items cell)[q]? = some v → m₂.store.equal v needle = false) ∧
      ∀ text d, haystack = .string text → m₂.store.display needle = d →
        (place.isSome = true ↔ d <:+: text) ∧
        ∀ p, place = some p →
          FirstAt d text p ∧
          FirstAt (Text.bytes d) (Text.bytes text) (Text.byteLength (text.take p)) ∧
          text.carve p d.length = d ∧
          (p < 2 * Dyadic.leadingBit → ∀ (n n₁ n₂ n₃ : Machine σ) line g,
            Form.find? line = some (.computation .carve, g) →
            (evaluate (g.display 1)).run.run n = (.ok text, n₁) →
            (evaluate (g.number 2)).run.run n₁ = (.ok (Number.ofNat p), n₂) →
            (evaluate (g.integer 3)).run.run n₂ = (.ok (d.length : Int), n₃) →
            (statement line).run.run n = (bindName (g.text 4) (.string d)).run.run n₃) := by
  refine ⟨Collection.place? m₂.store needle haystack, ?_, ?_, ?_, ?_, ?_, ?_⟩
  · exact fun text hcondition => run_holds_contains hcondition hneedle hhaystack
  · rintro line g hform rfl rfl
    exact run_statement_contains hform hneedle hhaystack
  · rintro line g hform rfl rfl
    exact run_statement_seek hform hneedle hhaystack hkind
  · rw [Number.beq_neg_one_place, Option.isNone_eq_false_iff]
  · rintro cell rfl
    exact ⟨Collection.position?_isSome_iff, fun p hp => Collection.equal_of_position? hp⟩
  · rintro text d rfl rfl
    constructor
    · rw [Option.isSome_iff_ne_none, Ne, ← not_iff_not, not_not]
      exact Text.find?_eq_none_iff
    · intro p hp
      have hfirst : FirstAt (m₂.store.display needle) text p := Text.firstAt_of_find? hp
      have hcarved := Text.carve_of_firstAt hfirst
      refine ⟨hfirst, Text.firstAt_bytes hfirst, hcarved, ?_⟩
      intro hsmall n n₁ n₂ n₃ line g hform htext hstart hlength
      rw [run_statement_carve hform htext hstart hlength, Number.truncate_ofNat hsmall, hcarved]

/-- A machine with two texts that have characters of more than one byte. -/
def twoWords : Machine Transcript :=
  .afterCalls {} default {}
    [.execute "words is \"żółta gęś\" ok".toList, .execute "part is \"ęś\" ok".toList]

/-- A line that searches one of them in the other. -/
def seekingPart : Text := "Seek part in words into place ok".toList

/-- The places of the operands and of the name in that line. -/
def seekingGroups : Groups :=
  ⟨seekingPart, [(3, ⟨24, 29⟩), (2, ⟨13, 18⟩), (1, ⟨5, 9⟩)]⟩

theorem search_membership_and_slicing_agree_twoWords :
    (evaluate (Eval.holds "Contains part in words".toList)).run.run twoWords =
      (.ok true, twoWords) ∧
    (statement seekingPart).run.run twoWords =
      (bindName "place".toList (.number (Number.ofNat 7))).run.run twoWords ∧
    FirstAt (Text.bytes "ęś".toList) (Text.bytes "żółta gęś".toList) 10 ∧
    Text.carve "żółta gęś".toList 7 2 = "ęś".toList := by
  have hpart : (evaluate (Eval.value "part".toList)).run.run twoWords =
      (.ok (.string "ęś".toList), twoWords) := by
    rw [run_value_of_isIdentifier (by decide) (by decide) (by decide)]
    exact Prod.ext (by decide +kernel) rfl
  have hwords : (evaluate (Eval.value "words".toList)).run.run twoWords =
      (.ok (.string "żółta gęś".toList), twoWords) := by
    rw [run_value_of_isIdentifier (by decide) (by decide) (by decide)]
    exact Prod.ext (by decide +kernel) rfl
  obtain ⟨place, hcontains, -, hseek, -, -, htext⟩ :=
    search_membership_and_slicing_agree hpart hwords (.inl ⟨_, rfl⟩)
  obtain ⟨hoccurs, hfound⟩ := htext _ "ęś".toList rfl (by decide +kernel)
  obtain ⟨p, rfl⟩ := Option.isSome_iff_exists.1 (hoccurs.2 (by decide +kernel))
  obtain ⟨hfirst, hbytes, hcarved, -⟩ := hfound p rfl
  have hplace : FirstAt "ęś".toList "żółta gęś".toList 7 :=
    ⟨by decide +kernel, by decide +kernel⟩
  obtain rfl := hfirst.unique hplace
  have hbefore : Text.byteLength (("żółta gęś".toList).take 7) = 10 := by decide +kernel
  have hlength : "ęś".toList.length = 2 := by decide +kernel
  rw [hbefore] at hbytes
  rw [hlength] at hcarved
  refine ⟨hcontains _ (by decide +kernel), ?_, hbytes, hcarved⟩
  exact hseek seekingPart seekingGroups (by decide +kernel) (by decide +kernel) (by decide +kernel)

end Run

end Grimoire
