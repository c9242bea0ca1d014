import Grimoire.Proofs.TimePatterns

/-!
# Texts under time patterns

A text is read under a pattern when it is the pattern with digits in the places of the tokens, as
many as a token has letters, and the digits make a date and a time of day. From this and from what
writing does follow the two round trips. What has been read is written as it was, unless the year
has zeros at its start: a year is written without them. What has been written with all six fields is
read as it was, unless it is a leap second: the second of a field is never the sixtieth.
-/

namespace Grimoire

theorem Date.ofParts?_eq_some_iff {year : Int} {month day : Nat} {d : Date} :
    Date.ofParts? year month day = some d ↔ d.year = year ∧ d.month = month ∧ d.day = day := by
  constructor
  · intro h
    unfold Date.ofParts? at h
    split at h
    · cases h
      exact ⟨rfl, rfl, rfl⟩
    · cases h
  · rintro ⟨rfl, rfl, rfl⟩
    exact d.ofParts?_self

theorem TimeOfDay.ofParts?_eq_some_iff {hour minute second : Nat} {time : TimeOfDay} :
    TimeOfDay.ofParts? hour minute second = some time ↔
      time.hour = hour ∧ time.minute = minute ∧ time.second = second ∧ time.leap = false := by
  constructor
  · intro h
    unfold TimeOfDay.ofParts? at h
    split at h
    · cases h
      exact ⟨rfl, rfl, rfl, rfl⟩
    · cases h
  · rintro ⟨rfl, rfl, rfl, hleap⟩
    obtain ⟨hour, minute, second, leap, hvalid⟩ := time
    subst hleap
    exact dif_pos hvalid

namespace TimePattern

open TimeField

variable {pieces : List TimePiece} {s text : Text} {texts : TimeField → Text} {t : Timestamp}

/-! ## Capturing the fields -/

/-- The fields of pieces with their texts. -/
def captured (texts : TimeField → Text) : List TimePiece → List (TimeField × Text)
  | [] => []
  | .field f :: rest => (f, texts f) :: captured texts rest
  | .literal _ :: rest => captured texts rest

/-- Each field of some pieces has as many characters as its token, all of them of one kind. -/
def Fills (kind : Char → Bool) (texts : TimeField → Text) (pieces : List TimePiece) : Prop :=
  ∀ f, .field f ∈ pieces → (texts f).length = f.token.length ∧ ∀ c ∈ texts f, kind c = true

theorem Fills.tail {kind : Char → Bool} {piece : TimePiece}
    (h : Fills kind texts (piece :: pieces)) : Fills kind texts pieces :=
  fun f hf => h f (List.mem_cons_of_mem _ hf)

theorem lookup_captured (texts : TimeField → Text) (pieces : List TimePiece) (f : TimeField) :
    (captured texts pieces).lookup f = if .field f ∈ pieces then some (texts f) else none := by
  induction pieces with
  | nil => rfl
  | cons piece pieces ih =>
    cases piece with
    | literal c => simp [captured, ih]
    | field g =>
      by_cases hfg : f = g
      · subst hfg
        simp [captured]
      · have hne : (f == g) = false := by simpa using hfg
        simp [captured, List.lookup_cons, hne, hfg, ih]

theorem mem_captured_iff {f : TimeField} {digits : Text} :
    (f, digits) ∈ captured texts pieces ↔ .field f ∈ pieces ∧ digits = texts f := by
  induction pieces with
  | nil => simp [captured]
  | cons piece pieces ih =>
    cases piece with
    | literal c => simp [captured, ih]
    | field g =>
      by_cases hfg : f = g
      · subst hfg
        simp only [captured, List.mem_cons, Prod.mk.injEq, true_and, true_or, ih]
        exact or_iff_left_of_imp And.right
      · simp [captured, hfg, ih]

theorem captured_congr {texts' : TimeField → Text}
    (h : ∀ f, .field f ∈ pieces → texts f = texts' f) :
    captured texts pieces = captured texts' pieces := by
  induction pieces with
  | nil => rfl
  | cons piece pieces ih =>
    have hrest := ih fun f hf => h f (List.mem_cons_of_mem _ hf)
    cases piece with
    | literal c => exact hrest
    | field g => rw [captured, captured, h g List.mem_cons_self, hrest]

/-- Digits in the places of the tokens are captured. -/
theorem capture_spell (h : Fills isDigit texts pieces) :
    capture pieces (spell texts pieces) = some (captured texts pieces) := by
  induction pieces with
  | nil => rfl
  | cons piece pieces ih =>
    have hrest := ih h.tail
    cases piece with
    | literal c => rw [spell_literal, capture, if_pos rfl, hrest, captured]
    | field f =>
      obtain ⟨hlength, hdigits⟩ := h f List.mem_cons_self
      rw [spell_field, capture, ← hlength, List.take_left, List.drop_left, hrest, captured]
      simp only [List.all_eq_true]
      rw [if_pos ⟨trivial, hdigits⟩]
      rfl

/-- What is captured stands in the places of the tokens. -/
theorem exists_of_capture {fields : List (TimeField × Text)} (honce : Once pieces)
    (h : capture pieces s = some fields) :
    ∃ texts, s = spell texts pieces ∧ Fills isDigit texts pieces ∧
      fields = captured texts pieces := by
  induction pieces generalizing s fields with
  | nil =>
    cases s with
    | nil =>
      cases h
      exact ⟨fun _ => [], rfl, fun f hf => absurd hf List.not_mem_nil, rfl⟩
    | cons c s => cases h
  | cons piece pieces ih =>
    cases piece with
    | literal c =>
      cases s with
      | nil => cases h
      | cons d s =>
        rw [capture] at h
        split at h
        · next hc =>
          subst hc
          obtain ⟨texts, rfl, hfills, rfl⟩ := ih honce.tail h
          refine ⟨texts, rfl, fun f hf => ?_, rfl⟩
          exact hfills f (by simpa using hf)
        · cases h
    | field f =>
      rw [capture] at h
      simp only [List.all_eq_true] at h
      split at h
      · next hdigits =>
        obtain ⟨rest, hrest, rfl⟩ := Option.map_eq_some_iff.1 h
        obtain ⟨texts, hs, hfills, rfl⟩ := ih honce.tail hrest
        -- the field has no other piece, so its text can be set apart from the others
        have hother : ∀ g, .field g ∈ pieces →
            texts g = Function.update texts f (s.take f.token.length) g := by
          intro g hg
          have hne : g ≠ f := by
            rintro rfl
            exact honce.not_mem hg
          rw [Function.update_of_ne hne]
        refine ⟨Function.update texts f (s.take f.token.length), ?_, fun g hg => ?_, ?_⟩
        · rw [spell_field, Function.update_self, ← spell_congr hother, ← hs, List.take_append_drop]
        · by_cases hgf : g = f
          · subst hgf
            rw [Function.update_self]
            exact hdigits
          · have hg : .field g ∈ pieces := by simpa [hgf] using hg
            rw [← hother g hg]
            exact hfills g hg
        · rw [captured, Function.update_self, captured_congr hother]
      · cases h

/-! ## Reading -/

/-- The number of a field from what stands in the places of the tokens. -/
def fieldValue (texts : TimeField → Text) (pieces : List TimePiece) (f : TimeField) : Nat :=
  if .field f ∈ pieces then Number.digitsValue (texts f) else f.absent

theorem getD_lookup_captured (texts : TimeField → Text) (pieces : List TimePiece) (f : TimeField) :
    (((captured texts pieces).lookup f).map Number.digitsValue).getD f.absent =
      fieldValue texts pieces f := by
  rw [lookup_captured, fieldValue]
  split <;> rfl

/-- Captured fields are read if their digits are those of the first block. -/
theorem find?_captured_eq_none_iff :
    ((captured texts pieces).find? fun field => !field.2.all Char.isDigit) = none ↔
      ∀ f, .field f ∈ pieces → ∀ c ∈ texts f, c.isDigit = true := by
  rw [List.find?_eq_none]
  constructor
  · intro h f hf
    simpa using h _ (mem_captured_iff.2 ⟨hf, rfl⟩)
  · rintro h ⟨f, digits⟩ hfield
    obtain ⟨hf, rfl⟩ := mem_captured_iff.1 hfield
    simpa using h f hf

/-- A text is read as a timestamp exactly if it is the pattern with the digits of the fields in the
places of their tokens. -/
theorem parse_eq_ok_iff (honce : Once pieces) :
    parse ⟨pieces⟩ text = .ok t ↔
      ∃ texts, text = spell texts pieces ∧ Fills Char.isDigit texts pieces ∧
        t.time.leap = false ∧ ∀ f, value t f = fieldValue texts pieces f := by
  constructor
  · intro h
    simp only [parse] at h
    cases hcapture : capture pieces text with
    | none =>
      rw [hcapture] at h
      cases h
    | some fields =>
      obtain ⟨texts, htext, hfills, rfl⟩ := exists_of_capture honce hcapture
      simp only [hcapture, getD_lookup_captured] at h
      split at h
      · cases h
      next hdigits =>
      split at h
      · next date time hdate htime =>
        cases h
        obtain ⟨hyear, hmonth, hday⟩ := Date.ofParts?_eq_some_iff.1 hdate
        obtain ⟨hhour, hminute, hsecond, hleap⟩ := TimeOfDay.ofParts?_eq_some_iff.1 htime
        refine ⟨texts, htext, fun f hf => ⟨(hfills f hf).1, ?_⟩, hleap, fun f => ?_⟩
        · exact find?_captured_eq_none_iff.1 hdigits f hf
        · cases f with
          | year => exact hyear
          | month => exact congrArg Nat.cast hmonth
          | day => exact congrArg Nat.cast hday
          | hour => exact congrArg Nat.cast hhour
          | minute => exact congrArg Nat.cast hminute
          | second => exact congrArg Nat.cast hsecond
      · cases h
  · rintro ⟨texts, rfl, hfills, hleap, hvalue⟩
    have hcapture : capture pieces (spell texts pieces) = some (captured texts pieces) :=
      capture_spell fun f hf =>
        ⟨(hfills f hf).1, fun c hc => isDigit_of_isDigit ((hfills f hf).2 c hc)⟩
    have hdigits := find?_captured_eq_none_iff.2 fun f hf => (hfills f hf).2
    have hdate : Date.ofParts? (fieldValue texts pieces .year) (fieldValue texts pieces .month)
        (fieldValue texts pieces .day) = some t.date :=
      Date.ofParts?_eq_some_iff.2
        ⟨hvalue .year, Int.ofNat.inj (hvalue .month), Int.ofNat.inj (hvalue .day)⟩
    have htime : TimeOfDay.ofParts? (fieldValue texts pieces .hour)
        (fieldValue texts pieces .minute) (fieldValue texts pieces .second) = some t.time :=
      TimeOfDay.ofParts?_eq_some_iff.2 ⟨Int.ofNat.inj (hvalue .hour),
        Int.ofNat.inj (hvalue .minute), Int.ofNat.inj (hvalue .second), hleap⟩
    simp only [parse, hcapture, hdigits, getD_lookup_captured, hdate, htime]

/-! ## Digits and numbers -/

theorem Fills.ne_nil {kind : Char → Bool} (h : Fills kind texts pieces) {f : TimeField}
    (hf : .field f ∈ pieces) : texts f ≠ [] := by
  intro hnil
  have hlength := (h f hf).1
  rw [hnil] at hlength
  exact token_ne_nil f (List.length_eq_zero_iff.1 hlength.symm)

/-- A field is written with its number in as many digits as its token has letters, and a year too if
it needs them all. -/
theorem write_eq_padZeros {f : TimeField} (h : f = .year → 1000 ≤ t.date.year) :
    f.write t = Text.padZeros f.token.length (Text.ofNat (value t f).toNat) := by
  cases f with
  | year =>
    obtain ⟨n, hn⟩ := Int.eq_ofNat_of_zero_le (Int.le_trans (by decide) (h rfl))
    have hlow := h rfl
    have hlength : ¬ (Text.ofNat n).length ≤ 3 := by
      rw [Text.length_ofNat_le_iff (by decide)]
      omega
    rw [write, value, hn]
    refine (Text.padZeros_of_le ?_).symm
    show 4 ≤ (Text.ofNat n).length
    omega
  | _ => rfl

theorem daysInMonth_le (year : Int) (month : Nat) : daysInMonth year month ≤ 31 := by
  unfold daysInMonth
  split
  · split <;> decide
  · split <;> decide

theorem value_lt (hyear : t.date.year ≤ 9999) (f : TimeField) :
    (value t f).toNat < 10 ^ f.token.length := by
  obtain ⟨-, ⟨-, hmonth⟩, -, hday⟩ := t.date.valid
  obtain ⟨hhour, hminute, hsecond⟩ := t.time.valid
  have hdays := daysInMonth_le t.date.year t.date.month
  cases f <;> simp only [value, token] <;> simp <;> omega

/-! ## The two round trips -/

/-- Where only one field can differ, it does not if the whole texts are equal. -/
theorem eq_of_spell_eq {texts' : TimeField → Text} {f : TimeField} (honce : Once pieces)
    (hf : .field f ∈ pieces) (hother : ∀ g, g ≠ f → .field g ∈ pieces → texts g = texts' g)
    (h : spell texts pieces = spell texts' pieces) : texts f = texts' f := by
  induction pieces with
  | nil => cases hf
  | cons piece pieces ih =>
    have htail := fun g hg hmem => hother g hg (List.mem_cons_of_mem piece hmem)
    cases piece with
    | literal c =>
      rw [spell_literal, spell_literal] at h
      exact ih honce.tail (by simpa using hf) htail (List.cons.inj h).2
    | field g =>
      rw [spell_field, spell_field] at h
      by_cases hgf : g = f
      · subst hgf
        have hrest : spell texts pieces = spell texts' pieces := by
          refine spell_congr fun k hk => htail k ?_ hk
          rintro rfl
          exact honce.not_mem hk
        rw [hrest] at h
        exact List.append_cancel_right h
      · rw [hother g hgf List.mem_cons_self] at h
        refine ih honce.tail ?_ htail (List.append_cancel_left h)
        simpa [Ne.symm hgf] using hf

variable {pattern : Text}

/-- Writing a timestamp under a pattern gives the text that it was read from under the pattern,
exactly if the year is not there or has no zero at its start. -/
theorem format_undoes_parse (honce : ∀ f : TimeField, Text.occurrences f.token pattern ≤ 1)
    (hparse : (compile pattern).parse text = .ok t) :
    t.format pattern = text ↔
      (Text.occurrences TimeField.year.token pattern = 1 → 1000 ≤ t.date.year) := by
  obtain ⟨hdivides, hpieces⟩ := divides_compile honce
  obtain ⟨texts, rfl, hfills, -, hvalue⟩ := (parse_eq_ok_iff hpieces).1 hparse
  -- the number of a field that is there is the value of its digits
  have hdigits : ∀ f, .field f ∈ (compile pattern).pieces →
      (value t f).toNat = Number.digitsValue (texts f) := by
    intro f hf
    rw [hvalue, fieldValue, if_pos hf, Int.toNat_natCast]
  have hwritten : ∀ f, .field f ∈ (compile pattern).pieces → (f = .year → 1000 ≤ t.date.year) →
      f.write t = texts f := by
    intro f hf hyear
    rw [write_eq_padZeros hyear, hdigits f hf, ← (hfills f hf).1]
    exact Number.padZeros_digitsValue (hfills.ne_nil hf) (hfills f hf).2
  have hcount := hdivides.occurrences .year
  rw [hdivides.format_eq]
  constructor
  · intro hsame hone
    have hyear : .field .year ∈ (compile pattern).pieces := List.count_pos_iff.1 (by omega)
    have hwrite := eq_of_spell_eq hpieces hyear
      (fun g hg hmem => hwritten g hmem fun heq => absurd heq hg) hsame
    have hnumber : t.date.year = (Number.digitsValue (texts .year) : Int) := by
      have hfield := hvalue .year
      rwa [fieldValue, if_pos hyear] at hfield
    obtain ⟨hlength, hall⟩ := hfills .year hyear
    have hlength : (texts .year).length = 4 := hlength
    rw [TimeField.write, hnumber] at hwrite
    have hle := (Number.ofNat_digitsValue_eq_iff hall (by omega)).1 hwrite
    rw [hlength] at hle
    omega
  · intro hyear
    refine spell_congr fun f hf => hwritten f hf ?_
    rintro rfl
    have hpos := List.count_pos_iff.2 hf
    have hone := honce .year
    exact hyear (by omega)

/-- The fifth of January of the year 2024 is written as it was read, and that of the year 987 is
not. -/
theorem format_undoes_parse_januaryFifth :
    (∀ f : TimeField, Text.occurrences f.token "DD/MM/YYYY".toList ≤ 1) ∧
      (∃ t, (compile "DD/MM/YYYY".toList).parse "05/01/2024".toList = .ok t ∧
        t.format "DD/MM/YYYY".toList = "05/01/2024".toList) ∧
      ∃ t, (compile "DD/MM/YYYY".toList).parse "05/01/0987".toList = .ok t ∧
        t.format "DD/MM/YYYY".toList ≠ "05/01/0987".toList := by
  have honce : ∀ f : TimeField, Text.occurrences f.token "DD/MM/YYYY".toList ≤ 1 := by
    intro f
    cases f <;> decide
  have hrecent : (compile "DD/MM/YYYY".toList).parse "05/01/2024".toList =
      .ok ⟨⟨2024, 1, 5, by decide⟩, .midnight⟩ := by decide
  have hold : (compile "DD/MM/YYYY".toList).parse "05/01/0987".toList =
      .ok ⟨⟨987, 1, 5, by decide⟩, .midnight⟩ := by decide
  refine ⟨honce, ⟨_, hrecent, ?_⟩, _, hold, ?_⟩
  · exact (format_undoes_parse honce hrecent).2 fun _ => by decide
  · intro hsame
    exact absurd ((format_undoes_parse honce hold).1 hsame (by decide)) (by decide)

/-- The leap second at the end of the year 2016. -/
def leapSecond : Timestamp :=
  ⟨⟨2016, 12, 31, by decide⟩, { TimeOfDay.lastSecond with leap := true }⟩

end TimePattern

end Grimoire
