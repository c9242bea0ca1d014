import Grimoire.Proofs.Characters
import Grimoire.Proofs.Documents
import Grimoire.Proofs.InPlace
import Grimoire.Proofs.ReadBack
import Grimoire.Proofs.TimeTexts
import Mathlib.Data.Option.Basic

/-!
# The texts of timestamps

A timestamp is displayed with a space between its date and its time of day, and it has a `T` there
in a document. Dates are read from plain texts by trying one layout after the other. The first
layout takes the displayed text; the other text it gives up at the `T`, and the second layout takes
it. Whoever asks a value for a date is therefore told the same by a timestamp and by its texts.
-/

namespace Grimoire

variable {t : Timestamp}

/-! ## Numbers in a text -/

theorem isBlank_of_isDigit {c : Char} (h : c.isDigit = true) : isBlank c = false :=
  isBlank_of_isPlain (isPlain_of_isWord (isWord_of_isDigit (isDigit_of_isDigit h)))

namespace DateText

variable {digits rest : Text} {most width n : Nat}

/-- No digit follows. -/
def EndsDigits (rest : Text) : Prop :=
  ∀ c ∈ rest.head?, c.isDigit = false

theorem endsDigits_nil : EndsDigits [] := by
  simp [EndsDigits]

theorem endsDigits_cons {c : Char} (h : c.isDigit = false) : EndsDigits (c :: rest) := by
  simpa [EndsDigits] using h

theorem trimStart_append (hne : digits ≠ []) (hdigits : ∀ c ∈ digits, c.isDigit = true) :
    Text.trimStart (digits ++ rest) = digits ++ rest := by
  obtain ⟨c, digits, rfl⟩ := List.exists_cons_of_ne_nil hne
  have hblank := isBlank_of_isDigit (hdigits c List.mem_cons_self)
  exact List.dropWhile_cons_of_neg (by simp [hblank])

/-- Digits are taken up to what follows them. -/
theorem takeNumber?_append (hne : digits ≠ []) (hmost : digits.length ≤ most)
    (hdigits : ∀ c ∈ digits, c.isDigit = true) (hrest : EndsDigits rest) :
    takeNumber? most (digits ++ rest) = some (Number.digitsValue digits, rest) := by
  have hnext : EndsDigits (rest.take (most - digits.length)) := by
    intro c hc
    rw [List.head?_take] at hc
    split at hc
    · cases hc
    · exact hrest c hc
  have htaken : ((digits ++ rest).take most).takeWhile Char.isDigit = digits := by
    rw [List.take_append, List.take_of_length_le hmost, Json.takeWhile_append_stops hnext,
      List.takeWhile_eq_self_iff.2 hdigits]
  simp only [takeNumber?, htaken]
  rw [if_neg (by simpa using hne), List.drop_left]

theorem padZeros_ofNat_ne_nil (width n : Nat) : Text.padZeros width (Text.ofNat n) ≠ [] :=
  List.append_ne_nil_of_right_ne_nil _ (Text.ofNat_ne_nil n)

theorem isDigit_of_mem_padZeros_ofNat {c : Char} (hc : c ∈ Text.padZeros width (Text.ofNat n)) :
    c.isDigit = true :=
  Text.isDigit_of_mem_padZeros (fun _ hd => Text.isDigit_of_mem_ofNat hd) hc

/-- A count is read as it was written. -/
theorem takeNumber?_padZeros (hmost : (Text.padZeros width (Text.ofNat n)).length ≤ most)
    (hrest : EndsDigits rest) :
    takeNumber? most (Text.padZeros width (Text.ofNat n) ++ rest) = some (n, rest) := by
  rw [takeNumber?_append (padZeros_ofNat_ne_nil width n) hmost
    (fun _ hc => isDigit_of_mem_padZeros_ofNat hc) hrest, Number.digitsValue_padZeros,
    Number.digitsValue_ofNat]

theorem takeTwo?_twoDigits (hn : n < 100) (hrest : EndsDigits rest) :
    takeTwo? (Timestamp.twoDigits n ++ rest) = some (n, rest) := by
  have hlength : (Timestamp.twoDigits n).length = 2 :=
    Text.length_padZeros_ofNat (by decide) hn
  rw [takeTwo?, Timestamp.twoDigits, trimStart_append (padZeros_ofNat_ne_nil 2 n)
    fun _ hc => isDigit_of_mem_padZeros_ofNat hc]
  exact takeNumber?_padZeros hlength.le hrest

/-- A year without a sign has at most four digits. -/
theorem takeYear?_of_isDigit {c : Char} (hc : c.isDigit = true) (s : Text) :
    takeYear? (c :: s) = (takeNumber? 4 (c :: s)).map fun (n, left) => ((n : Int), left) := by
  have htrim : Text.trimStart (c :: s) = c :: s :=
    List.dropWhile_cons_of_neg (by simp [isBlank_of_isDigit hc])
  rw [takeYear?, htrim]
  split
  · next heq =>
    obtain ⟨rfl, -⟩ := List.cons.inj heq
    cases hc
  · next heq =>
    obtain ⟨rfl, -⟩ := List.cons.inj heq
    cases hc
  · rfl

theorem takeYear?_minus (s : Text) :
    takeYear? ('-' :: s) = (takeNumber? s.length s).map fun (n, left) => (-(n : Int), left) :=
  rfl

theorem takeYear?_plus (s : Text) :
    takeYear? ('+' :: s) = (takeNumber? s.length s).map fun (n, left) => ((n : Int), left) :=
  rfl

/-- Every year is read as it was written, with its sign or without one. -/
theorem takeYear?_yearText (year : Int) (hrest : EndsDigits rest) :
    takeYear? (Timestamp.yearText year ++ rest) = some (year, rest) := by
  have htake : ∀ most, (Text.padZeros 4 (Text.ofNat year.natAbs)).length ≤ most →
      takeNumber? most (Text.padZeros 4 (Text.ofNat year.natAbs) ++ rest) =
        some (year.natAbs, rest) := fun _ hmost => takeNumber?_padZeros hmost hrest
  have hall : (Text.padZeros 4 (Text.ofNat year.natAbs)).length ≤
      (Text.padZeros 4 (Text.ofNat year.natAbs) ++ rest).length := by
    rw [List.length_append]
    exact Nat.le_add_right _ _
  simp only [Timestamp.yearText]
  split
  · have hyear : -(year.natAbs : Int) = year := by omega
    rw [List.cons_append, takeYear?_minus, htake _ hall, Option.map_some]
    exact congrArg (fun y => some (y, rest)) hyear
  have hyear : (year.natAbs : Int) = year := by omega
  split
  · rw [List.cons_append, takeYear?_plus, htake _ hall, Option.map_some]
    exact congrArg (fun y => some (y, rest)) hyear
  · have hfour : (Text.padZeros 4 (Text.ofNat year.natAbs)).length = 4 :=
      Text.length_padZeros_ofNat (by decide) (by omega)
    have hread := htake 4 hfour.le
    -- the first digit is not taken for a sign
    obtain ⟨c, digits, hcons⟩ := List.exists_cons_of_ne_nil (padZeros_ofNat_ne_nil 4 year.natAbs)
    have hc : c.isDigit = true :=
      isDigit_of_mem_padZeros_ofNat (by rw [hcons]; exact List.mem_cons_self)
    rw [hcons, List.cons_append] at hread ⊢
    rw [takeYear?_of_isDigit hc, hread, Option.map_some]
    exact congrArg (fun y => some (y, rest)) hyear

end DateText

/-! ## Dates and times of day in a text -/

/-- A date in the texts of timestamps. -/
def Date.text (d : Date) : Text :=
  Timestamp.yearText d.year ++ '-' :: (Timestamp.twoDigits d.month ++
    '-' :: Timestamp.twoDigits d.day)

/-- The second that is written: a leap second is the sixtieth. -/
def TimeOfDay.writtenSecond (time : TimeOfDay) : Nat :=
  if time.leap then time.second + 1 else time.second

/-- A time of day in the texts of timestamps. -/
def TimeOfDay.text (time : TimeOfDay) : Text :=
  Timestamp.twoDigits time.hour ++ ':' :: (Timestamp.twoDigits time.minute ++
    ':' :: Timestamp.twoDigits time.writtenSecond)

/-- Only the 59th second of a minute is marked as a leap second. -/
def TimeOfDay.Regular (time : TimeOfDay) : Prop :=
  time.leap = true → time.second = 59

theorem Timestamp.write_eq (between : Text) (t : Timestamp) :
    t.write between = t.date.text ++ (between ++ t.time.text) := by
  simp only [write, Date.text, TimeOfDay.text, TimeOfDay.writtenSecond, List.append_assoc,
    List.cons_append]

namespace DateText

variable {rest : Text}

theorem takeDate?_text (d : Date) (hrest : EndsDigits rest) :
    takeDate? (d.text ++ rest) = some (d, rest) := by
  obtain ⟨-, ⟨-, hmonth⟩, -, hday⟩ := d.valid
  have hdays := TimePattern.daysInMonth_le d.year d.month
  have hmonth : d.month < 100 := by omega
  have hday : d.day < 100 := by omega
  have hhyphen : ∀ s, EndsDigits ('-' :: s) := fun _ => endsDigits_cons (by decide)
  simp only [takeDate?, Date.text, List.append_assoc, List.cons_append, Option.bind_eq_bind,
    takeYear?_yearText _ (hhyphen _), takeTwo?_twoDigits hmonth (hhyphen _),
    takeTwo?_twoDigits hday hrest, Text.dropFirst?, if_true, Option.bind_some, d.ofParts?_self]
  rfl

/-- What is read from the numbers of a time of day. -/
theorem takeTime?_append {hour minute second : Nat} (hhour : hour < 100) (hminute : minute < 100)
    (hsecond : second < 100) (hrest : EndsDigits rest) :
    takeTime? (Timestamp.twoDigits hour ++ ':' :: (Timestamp.twoDigits minute ++
        ':' :: (Timestamp.twoDigits second ++ rest))) =
      if second = 60 then
        (TimeOfDay.ofParts? hour minute 59).map fun time => ({ time with leap := true }, rest)
      else (TimeOfDay.ofParts? hour minute second).map fun time => (time, rest) := by
  have hcolon : ∀ s, EndsDigits (':' :: s) := fun _ => endsDigits_cons (by decide)
  simp only [takeTime?, Option.bind_eq_bind, takeTwo?_twoDigits hhour (hcolon _),
    takeTwo?_twoDigits hminute (hcolon _), takeTwo?_twoDigits hsecond hrest, Text.dropFirst?,
    if_true, Option.bind_some, Option.map_eq_bind]
  rfl

theorem takeTime?_text {time : TimeOfDay} (h : time.Regular) (hrest : EndsDigits rest) :
    takeTime? (time.text ++ rest) = some (time, rest) := by
  obtain ⟨hhour, hminute, hsecond⟩ := time.valid
  have hhour : time.hour < 100 := by omega
  have hminute : time.minute < 100 := by omega
  simp only [TimeOfDay.text, TimeOfDay.writtenSecond, List.append_assoc, List.cons_append]
  -- a marked second is written as the sixtieth, and no other second is
  by_cases hleap : time.leap = true
  · have hlast := h hleap
    have hsixty : 60 < 100 := by decide
    have hparts : TimeOfDay.ofParts? time.hour time.minute 59 = some { time with leap := false } :=
      TimeOfDay.ofParts?_eq_some_iff.2 ⟨rfl, rfl, hlast, rfl⟩
    rw [if_pos hleap, hlast, takeTime?_append hhour hminute hsixty hrest, if_pos rfl, hparts,
      Option.map_some, ← hleap]
  · have hsixty : ¬ time.second = 60 := by omega
    have hsecond : time.second < 100 := by omega
    have hparts : TimeOfDay.ofParts? time.hour time.minute time.second = some time :=
      TimeOfDay.ofParts?_eq_some_iff.2 ⟨rfl, rfl, rfl, eq_false_of_ne_true hleap⟩
    rw [if_neg hleap, takeTime?_append hhour hminute hsecond hrest, if_neg hsixty, hparts,
      Option.map_some]

/-! ## The two texts of a timestamp -/

theorem trimStart_text (time : TimeOfDay) : Text.trimStart time.text = time.text :=
  trimStart_append (padZeros_ofNat_ne_nil 2 time.hour) fun _ hc => isDigit_of_mem_padZeros_ofNat hc

/-- What a layout makes of a timestamp is decided after the date. -/
theorem readBoth?_write {between : Text} (separator? : Text → Option Text)
    (hbetween : EndsDigits (between ++ t.time.text)) :
    readBoth? separator? (t.write between) =
      (separator? (between ++ t.time.text)).bind fun s => (takeTime? s).bind fun (time, s) =>
        if s.isEmpty then some ⟨t.date, time⟩ else none := by
  rw [Timestamp.write_eq, readBoth?, takeDate?_text t.date hbetween]
  rfl

theorem takeTime?_self (h : t.time.Regular) : takeTime? t.time.text = some (t.time, []) := by
  have htime := takeTime?_text h endsDigits_nil
  rwa [List.append_nil] at htime

/-- The first layout takes the displayed text. -/
theorem read?_display (h : t.time.Regular) : read? t.display = some t := by
  have hspace : EndsDigits ([' '] ++ t.time.text) := endsDigits_cons (by decide)
  have htrim : Text.trimStart ([' '] ++ t.time.text) = t.time.text := trimStart_text t.time
  rw [Timestamp.display, read?, readBoth?_write _ hspace, htrim, Option.bind_some,
    takeTime?_self h]
  rfl

/-- The first layout wants digits after the date, so the text of documents is left to the second
one. -/
theorem read?_isoText (h : t.time.Regular) : read? t.isoText = some t := by
  have hletter : EndsDigits (['T'] ++ t.time.text) := endsDigits_cons (by decide)
  have hnone : takeTime? (Text.trimStart (['T'] ++ t.time.text)) = none := rfl
  have hdrop : Text.dropFirst? 'T' (['T'] ++ t.time.text) = some t.time.text := rfl
  rw [Timestamp.isoText, read?, readBoth?_write _ hletter, Option.bind_some, hnone,
    readBoth?_write _ hletter, hdrop, Option.bind_some, takeTime?_self h]
  rfl

end DateText

/-! ## Blanks around a text -/

theorem Text.firm_padZeros_ofNat (width n : Nat) : Firm (padZeros width (ofNat n)) :=
  firm_of_forall (DateText.padZeros_ofNat_ne_nil width n) fun _ hc =>
    isBlank_of_isDigit (DateText.isDigit_of_mem_padZeros_ofNat hc)

namespace Timestamp

theorem firm_yearText (year : Int) : Text.Firm (yearText year) := by
  have hdigits := Text.firm_padZeros_ofNat 4 year.natAbs
  have hsigned : ∀ c, isBlank c = false →
      Text.Firm ([c] ++ ([] ++ Text.padZeros 4 (Text.ofNat year.natAbs))) := fun c hc =>
    (Text.firm_singleton hc).append [] hdigits
  simp only [yearText]
  split
  · exact hsigned '-' (by decide)
  split
  · exact hsigned '+' (by decide)
  · exact hdigits

theorem firm_write (between : Text) (t : Timestamp) : Text.Firm (t.write between) := by
  have hdate : Text.Firm t.date.text := by
    have hfirm := (firm_yearText t.date.year).append ('-' :: (twoDigits t.date.month ++ ['-']))
      (Text.firm_padZeros_ofNat 2 t.date.day)
    simpa [Date.text, twoDigits] using hfirm
  have htime : Text.Firm t.time.text := by
    have hfirm := (Text.firm_padZeros_ofNat 2 t.time.hour).append
      (':' :: (twoDigits t.time.minute ++ [':']))
      (Text.firm_padZeros_ofNat 2 t.time.writtenSecond)
    simpa [TimeOfDay.text, twoDigits] using hfirm
  rw [write_eq]
  exact hdate.append between htime

/-! ## The values that are given for a timestamp -/

/-- A value is a timestamp, its displayed text with blanks around it, or what its JSON text is
decoded to. -/
inductive Renders (t : Timestamp) : Value → Prop
  | itself : Renders t (.timestamp t)
  | displayed {s : Store} {before after : Text} (hbefore : Text.Blank before)
      (hafter : Text.Blank after) :
      Renders t (.string (before ++ (s.display (.timestamp t) ++ after)))
  | decoded {s s' made : Store} {document : Text} {v : Value}
      (hencode : s.encode (.timestamp t) = .ok document)
      (hdecode : s'.decode document = .ok (v, made)) : Renders t v

end Timestamp

namespace Store

/-- The JSON text of a timestamp is decoded to a string. -/
theorem decode_encode_timestamp (s s' : Store) (t : Timestamp) :
    ∃ document, s.encode (.timestamp t) = .ok document ∧
      s'.decode document = .ok (.string t.isoText, s') := by
  refine ⟨Json.write (.string t.isoText), ?_, ?_⟩
  · rw [encode, document, documentWithin]
    rfl
  · have hregular : Json.Regular (Json.ReadsAs id) Json.maxDepth (.string t.isoText) := True.intro
    rw [decode, Json.read?_write hregular, Json.mapNumbers]
    rfl

end Store

namespace Timestamp

variable {v : Value}

theorem Renders.run_toTimestamp (h : t.Renders v) (ht : t.time.Regular) (r : Resources) :
    (Work.toTimestamp v).run.run r = (.ok t, r) := by
  have hstring : ∀ text : Text, DateText.read? text.trim = some t →
      (Work.toTimestamp (.string text)).run.run r = (.ok t, r) := by
    intro text hread
    rw [Work.toTimestamp, hread]
    rfl
  cases h with
  | itself => rfl
  | @displayed s before after hbefore hafter =>
    apply hstring
    rw [s.display_timestamp, display, (firm_write [' '] t).trim hbefore hafter]
    exact DateText.read?_display ht
  | @decoded s s' made document v hencode hdecode =>
    -- whatever the stores hold, only one string can have come of the JSON text
    obtain ⟨document', hencode', hdecode'⟩ := s.decode_encode_timestamp s' t
    obtain rfl : document = document' := Except.ok.inj (hencode.symm.trans hencode')
    obtain ⟨rfl, -⟩ := Prod.mk.inj (Except.ok.inj (hdecode.symm.trans hdecode'))
    apply hstring
    rw [isoText, (firm_write ['T'] t).trim_self]
    exact DateText.read?_isoText ht

end Timestamp

namespace Work

variable {r : Resources} {s : Store} {v : Value} {text : Text}

theorem run_encode (h : r.store.encode v = .ok text) : (encode v).run.run r = (.ok text, r) := by
  have hstore : store.run.run r = (.ok r.store, r) := rfl
  simp only [encode, run_bind, hstore, h]
  rfl

theorem run_decode (h : r.store.decode text = .ok (v, s)) :
    (decode text).run.run r = (.ok v, { r with store := s }) := by
  have hget : (get : Work Resources).run.run r = (.ok r, r) := rfl
  simp only [decode, run_bind, hget, h]
  rfl

end Work

/-! ## Marks of leap seconds -/

namespace DateText

variable {rest : Text}

theorem regular_of_takeTime? {s : Text} {time : TimeOfDay} (h : takeTime? s = some (time, rest)) :
    time.Regular := by
  simp only [takeTime?, Option.bind_eq_bind, Option.bind_eq_some_iff] at h
  obtain ⟨⟨hour, _⟩, -, _, -, ⟨minute, _⟩, -, _, -, ⟨second, _⟩, -, h⟩ := h
  intro hleap
  split at h
  · obtain ⟨read, hread, heq⟩ := Option.bind_eq_some_iff.1 h
    cases heq
    exact (TimeOfDay.ofParts?_eq_some_iff.1 hread).2.2.1
  · obtain ⟨read, hread, heq⟩ := Option.bind_eq_some_iff.1 h
    cases heq
    rw [(TimeOfDay.ofParts?_eq_some_iff.1 hread).2.2.2] at hleap
    cases hleap

theorem regular_of_readBoth? {separator? : Text → Option Text} {s : Text}
    (h : readBoth? separator? s = some t) : t.time.Regular := by
  simp only [readBoth?, Option.bind_eq_bind, Option.bind_eq_some_iff] at h
  obtain ⟨⟨date, _⟩, -, _, -, ⟨time, _⟩, htime, h⟩ := h
  split at h
  · cases h
    exact regular_of_takeTime? htime
  · cases h

theorem regular_of_readDate? {s : Text} (h : readDate? s = some t) : t.time.Regular := by
  simp only [readDate?, Option.bind_eq_bind, Option.bind_eq_some_iff] at h
  obtain ⟨⟨date, _⟩, -, h⟩ := h
  split at h
  · cases h
    exact fun hleap => nomatch hleap
  · cases h

theorem regular_of_read? {s : Text} (h : read? s = some t) : t.time.Regular := by
  rw [read?, Option.orElse_eq_some, Option.orElse_eq_some] at h
  rcases h with h | ⟨-, h | ⟨-, h⟩⟩
  · exact regular_of_readBoth? h
  · exact regular_of_readBoth? h
  · exact regular_of_readDate? h

end DateText

namespace Work

variable {r r' : Resources} {u : Timestamp}

theorem regular_of_ofSeconds? {day seconds : Int} (h : Timestamp.ofSeconds? day seconds = some t) :
    t.time.Regular := by
  obtain ⟨date, -, rfl⟩ := Option.map_eq_some_iff.1 h
  exact fun hleap => nomatch hleap

theorem regular_of_toTimestamp {v : Value} (hv : ∀ u, v = .timestamp u → u.time.Regular)
    (h : (toTimestamp v).run.run r = (.ok t, r')) : t.time.Regular := by
  cases v with
  | timestamp u =>
    cases h
    exact hv t rfl
  | number x =>
    rw [toTimestamp] at h
    split at h
    · cases h
    split at h
    · next hmade =>
      cases h
      exact regular_of_ofSeconds? hmade
    · cases h
  | string text =>
    rw [toTimestamp] at h
    split at h
    · next hread =>
      cases h
      exact DateText.regular_of_read? hread
    · cases h
  | _ => cases h

theorem regular_of_parse {pattern : TimePattern} {text : Text} (h : pattern.parse text = .ok t) :
    t.time.Regular := by
  simp only [TimePattern.parse] at h
  split at h
  · cases h
  split at h
  · cases h
  split at h
  · next htime =>
    cases h
    intro hleap
    rw [(TimeOfDay.ofParts?_eq_some_iff.1 htime).2.2.2] at hleap
    cases hleap
  · cases h

theorem regular_of_parseTime {text pattern : Text}
    (h : (parseTime text pattern).run.run r = (.ok t, r')) : t.time.Regular := by
  rw [parseTime, run_bind] at h
  split at h
  · next p r₁ hpattern =>
    cases hparse : p.parse text with
    | ok u =>
      rw [hparse] at h
      cases h
      exact regular_of_parse hparse
    | error fault =>
      rw [hparse] at h
      cases h
  · cases h

theorem regular_of_shift {amount : Number} {unit : Int} (ht : t.time.Regular)
    (h : (shift t amount unit).run.run r = (.ok u, r')) : u.time.Regular := by
  rw [shift] at h
  split at h
  · cases h
  split at h
  · next hmade =>
    cases h
    unfold Timestamp.shift? at hmade
    split at hmade
    · cases hmade
      exact ht
    · exact regular_of_ofSeconds? hmade
  · cases h

end Work

/-! ## Statements about dates -/

namespace Run

open Timestamp

variable {σ α : Type} {m m₁ m₂ : Machine σ} {g : Groups} {slot : Nat} {u : Timestamp} {v w : Value}

/-- An operand for which a timestamp is wanted gives it in any of its forms. -/
theorem run_date_bind (hvalue : (evaluate (g.value slot)).run.run m = (.ok v, m₁))
    (hv : t.Renders v) (ht : t.time.Regular) (f : Timestamp → Eval α) :
    (evaluate (g.date slot >>= f)).run.run m = (evaluate (f t)).run.run m₁ := by
  have hdate : (evaluate (liftM (Work.toTimestamp v) : Eval Timestamp)).run.run m₁ = (.ok t, m₁) :=
    run_evaluate_of_ok (hv.run_toTimestamp ht m₁.resources)
  rw [Groups.date, bind_assoc, run_evaluate_bind_of_ok hvalue, run_evaluate_bind_of_ok hdate]

theorem run_onDate (hvalue : (evaluate (g.value 1)).run.run m = (.ok v, m₁)) (hv : t.Renders v)
    (ht : t.time.Regular) (f : Timestamp → Timestamp) :
    (evaluate (Computation.onDate f g)).run.run m = (.ok (.timestamp (f t)), m₁) :=
  run_date_bind hvalue hv ht _

theorem run_formatted (hvalue : (evaluate (g.value 1)).run.run m = (.ok v, m₁)) (hv : t.Renders v)
    (ht : t.time.Regular) :
    (evaluate (Computation.formatted g)).run.run m = (.ok (.string (t.format (g.text 2))), m₁) :=
  run_date_bind hvalue hv ht _

theorem run_onDates (hvalue : (evaluate (g.value 1)).run.run m = (.ok v, m₁))
    (hvalue' : (evaluate (g.value 2)).run.run m₁ = (.ok w, m₂)) (hv : t.Renders v)
    (hw : u.Renders w) (ht : t.time.Regular) (hu : u.time.Regular)
    (f : Timestamp → Timestamp → Number) :
    (evaluate (Computation.onDates f g)).run.run m = (.ok (.number (f t u)), m₂) := by
  rw [Computation.onDates, run_date_bind hvalue hv ht]
  exact run_date_bind hvalue' hw hu _

variable [Host σ]

/-- The texts of a timestamp stand for it. Its displayed text, with any blanks around it, and what
its JSON text is decoded to are both read as the timestamp, whatever its year is; so a statement
about dates that has any of the three as an operand binds what follows from the timestamp. Leap
seconds are the sixtieth in the texts; that only the last second of a minute is marked as one holds
of all timestamps that are read from values and texts or made by shifts, and of the beginnings and
ends of days. -/
theorem texts_stand_for_their_timestamp :
    (∀ (t : Timestamp) (r : Resources), t.time.Regular →
      (∀ before after, Text.Blank before → Text.Blank after →
        (Work.toTimestamp (.string
          (before ++ (r.store.display (.timestamp t) ++ after)))).run.run r = (.ok t, r)) ∧
      ∃ document v, (Work.encode (.timestamp t)).run.run r = (.ok document, r) ∧
        (Work.decode document).run.run r = (.ok v, r) ∧
        (Work.toTimestamp v).run.run r = (.ok t, r)) ∧
    (∀ (m m₁ : Machine σ) line g (t : Timestamp) v, t.time.Regular → t.Renders v →
      (evaluate (g.value 1)).run.run m = (.ok v, m₁) →
      (Form.find? line = some (.computation .dawnOf, g) →
        (statement line).run.run m =
          (bindName (g.text 2) (.timestamp t.startOfDay)).run.run m₁) ∧
      (Form.find? line = some (.computation .duskOf, g) →
        (statement line).run.run m = (bindName (g.text 2) (.timestamp t.endOfDay)).run.run m₁) ∧
      (Form.find? line = some (.computation .format, g) →
        (statement line).run.run m =
          (bindName (g.text 3) (.string (t.format (g.text 2)))).run.run m₁)) ∧
    (∀ (m m₁ m₂ : Machine σ) line g (t u : Timestamp) v w, t.time.Regular → u.time.Regular →
      t.Renders v → u.Renders w → (evaluate (g.value 1)).run.run m = (.ok v, m₁) →
      (evaluate (g.value 2)).run.run m₁ = (.ok w, m₂) →
      (Form.find? line = some (.computation .gapDays, g) →
        (statement line).run.run m =
          (bindName (g.text 3) (.number (t.diffDays u))).run.run m₂) ∧
      (Form.find? line = some (.computation .gapSeconds, g) →
        (statement line).run.run m =
          (bindName (g.text 3) (.number (t.diffSeconds u))).run.run m₂)) ∧
    (∀ (t : Timestamp) (r r' : Resources),
      (∀ v, (∀ u, v = .timestamp u → u.time.Regular) →
        (Work.toTimestamp v).run.run r = (.ok t, r') → t.time.Regular) ∧
      (∀ text pattern, (Work.parseTime text pattern).run.run r = (.ok t, r') → t.time.Regular) ∧
      (∀ u amount unit, u.time.Regular → (Work.shift u amount unit).run.run r = (.ok t, r') →
        t.time.Regular) ∧
      t.startOfDay.time.Regular ∧ t.endOfDay.time.Regular) := by
  refine ⟨?_, ?_, ?_, ?_⟩
  · intro t r ht
    constructor
    · exact fun before after hbefore hafter =>
        (Renders.displayed hbefore hafter).run_toTimestamp ht r
    · obtain ⟨document, hencode, hdecode⟩ := r.store.decode_encode_timestamp r.store t
      refine ⟨document, .string t.isoText, ?_, ?_, ?_⟩
      · exact Work.run_encode hencode
      · exact Work.run_decode hdecode
      · exact (Renders.decoded hencode hdecode).run_toTimestamp ht r
  · intro m m₁ line g t v ht hv hvalue
    refine ⟨fun hform => ?_, fun hform => ?_, fun hform => ?_⟩
    · apply run_statement_of_value (Form.isIdle_of_find? (by decide) (by decide) hform) hform
      exact run_onDate hvalue hv ht startOfDay
    · apply run_statement_of_value (Form.isIdle_of_find? (by decide) (by decide) hform) hform
      exact run_onDate hvalue hv ht endOfDay
    · apply run_statement_of_value (Form.isIdle_of_find? (by decide) (by decide) hform) hform
      exact run_formatted hvalue hv ht
  · intro m m₁ m₂ line g t u v w ht hu hv hw hvalue hvalue'
    refine ⟨fun hform => ?_, fun hform => ?_⟩
    · apply run_statement_of_value (Form.isIdle_of_find? (by decide) (by decide) hform) hform
      exact run_onDates hvalue hvalue' hv hw ht hu diffDays
    · apply run_statement_of_value (Form.isIdle_of_find? (by decide) (by decide) hform) hform
      exact run_onDates hvalue hvalue' hv hw ht hu diffSeconds
  · intro t r r'
    refine ⟨fun v hv h => ?_, fun text pattern h => ?_, fun u amount unit hu h => ?_, ?_, ?_⟩
    · exact Work.regular_of_toTimestamp hv h
    · exact Work.regular_of_parseTime h
    · exact Work.regular_of_shift hu h
    · exact fun hleap => nomatch hleap
    · exact fun hleap => nomatch hleap

/-- A leap second at the end of the year 5. -/
def yearsEnd : Timestamp :=
  ⟨⟨5, 12, 31, by decide⟩, ⟨22, 59, 59, true, by decide⟩⟩

/-- A machine with two texts of it, the displayed one among blanks. -/
def twoTexts : Machine Transcript :=
  .afterCalls {} default {}
    [.execute "shown is \" 0005-12-31 22:59:60\\t\" ok".toList,
      .execute "written is \"0005-12-31T22:59:60\" ok".toList]

/-- A line that wants the end of a day. -/
def ending : Text := "DuskOf shown into e ok".toList

/-- The places of the operand and of the name in that line. -/
def endingGroups : Groups :=
  ⟨ending, [(2, ⟨18, 19⟩), (1, ⟨7, 12⟩)]⟩

/-- A line that wants the seconds between two dates. -/
def waiting : Text := "GapSeconds between shown and written into d ok".toList

/-- The places of the operands and of the name in that line. -/
def waitingGroups : Groups :=
  ⟨waiting, [(3, ⟨42, 43⟩), (2, ⟨29, 36⟩), (1, ⟨19, 24⟩)]⟩

theorem texts_stand_for_their_timestamp_yearsEnd :
    yearsEnd.time.Regular ∧
      (Work.toTimestamp (.string " 0005-12-31 22:59:60\t".toList)).run.run twoTexts.resources =
        (.ok yearsEnd, twoTexts.resources) ∧
      (statement ending).run.run twoTexts =
        (bindName "e".toList (.timestamp yearsEnd.endOfDay)).run.run twoTexts ∧
      (statement waiting).run.run twoTexts =
        (bindName "d".toList (.number 0)).run.run twoTexts := by
  have hregular : yearsEnd.time.Regular := fun _ => rfl
  have hshows : " 0005-12-31 22:59:60\t".toList =
      [' '] ++ (twoTexts.store.display (.timestamp yearsEnd) ++ ['\t']) := by
    rw [Store.display_timestamp]
    decide +kernel
  have hshown : yearsEnd.Renders (.string " 0005-12-31 22:59:60\t".toList) := by
    rw [hshows]
    exact .displayed (by decide) (by decide)
  have hwritten : yearsEnd.Renders (.string "0005-12-31T22:59:60".toList) := by
    have hiso : "0005-12-31T22:59:60".toList = yearsEnd.isoText := by decide +kernel
    obtain ⟨_, hencode, hdecode⟩ := Store.decode_encode_timestamp {} {} yearsEnd
    rw [hiso]
    exact .decoded hencode hdecode
  have hday : (evaluate (endingGroups.value 1)).run.run twoTexts =
      (.ok (.string " 0005-12-31 22:59:60\t".toList), twoTexts) :=
    run_value_of_bound (by decide +kernel) (by decide +kernel)
  have hstart : (evaluate (waitingGroups.value 1)).run.run twoTexts =
      (.ok (.string " 0005-12-31 22:59:60\t".toList), twoTexts) :=
    run_value_of_bound (by decide +kernel) (by decide +kernel)
  have hstop : (evaluate (waitingGroups.value 2)).run.run twoTexts =
      (.ok (.string "0005-12-31T22:59:60".toList), twoTexts) :=
    run_value_of_bound (by decide +kernel) (by decide +kernel)
  obtain ⟨hread, hsingle, hpair, -⟩ := texts_stand_for_their_timestamp (σ := Transcript)
  refine ⟨hregular, ?_, ?_, ?_⟩
  · rw [hshows]
    exact (hread yearsEnd twoTexts.resources hregular).1 [' '] ['\t'] (by decide) (by decide)
  · exact (hsingle twoTexts twoTexts ending endingGroups yearsEnd _ hregular hshown hday).2.1
      (by decide +kernel)
  · have hgap := (hpair twoTexts twoTexts twoTexts waiting waitingGroups yearsEnd yearsEnd _ _
      hregular hregular hshown hwritten hstart hstop).2 (by decide +kernel)
    rw [show yearsEnd.diffSeconds yearsEnd = 0 by decide +kernel] at hgap
    exact hgap

end Run

end Grimoire
