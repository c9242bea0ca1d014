import Grimoire.Json.Reader
import Grimoire.Json.Writer
import Mathlib.Data.List.Basic

/-!
# Reading what was written

The reader finds every document again in its text. Strings come back character by character;
numbers come back as the reader takes them, which is all that has to be known about them; and since
a separator ends every part, what follows a document in a text does not matter to it.
-/

namespace Grimoire

namespace Json

/-! ## Strings -/

/-- A character is written as an escape with one letter, as a code, or as it is. -/
theorem escapeChar_cases (c : Char) :
    (∃ letter, escapeChar c = ['\\', letter] ∧ letter ≠ 'u' ∧ shortEscape? letter = some c) ∨
      (c.toNat < 0x20 ∧
        escapeChar c = ['\\', 'u', '0', '0', hexDigit (c.toNat / 16), hexDigit (c.toNat % 16)]) ∨
      (escapeChar c = [c] ∧ c ≠ '"' ∧ c ≠ '\\' ∧ ¬ c.toNat < 0x20) := by
  unfold escapeChar
  split
  · next h => exact .inl ⟨'"', rfl, by decide, by rw [h]; rfl⟩
  split
  · next h => exact .inl ⟨'\\', rfl, by decide, by rw [h]; rfl⟩
  split
  · next h => exact .inl ⟨'n', rfl, by decide, by rw [h]; rfl⟩
  split
  · next h => exact .inl ⟨'r', rfl, by decide, by rw [h]; rfl⟩
  split
  · next h => exact .inl ⟨'t', rfl, by decide, by rw [h]; rfl⟩
  split
  · next h => exact .inl ⟨'b', rfl, by decide, by rw [h]; rfl⟩
  split
  · next h => exact .inl ⟨'f', rfl, by decide, by rw [h]; rfl⟩
  split
  · next h => exact .inr (.inl ⟨h, rfl⟩)
  · next hquote hbackslash _ _ _ _ _ hcontrol =>
    exact .inr (.inr ⟨rfl, hquote, hbackslash, hcontrol⟩)

theorem hexQuad?_hexDigit {n : Nat} (h : n < 0x20) :
    hexQuad? '0' '0' (hexDigit (n / 16)) (hexDigit (n % 16)) = some n := by
  have hall : ∀ n, n < 0x20 →
      hexQuad? '0' '0' (hexDigit (n / 16)) (hexDigit (n % 16)) = some n := by
    decide
  exact hall n h

theorem takeString?_escapeChar (done : Text) (c : Char) (rest : Text) :
    takeString? done (escapeChar c ++ rest) = takeString? (c :: done) rest := by
  rcases escapeChar_cases c with ⟨letter, hc, hletter, hshort⟩ | ⟨hcontrol, hc⟩ |
    ⟨hc, hquote, hbackslash, hcontrol⟩
  · rw [hc, List.cons_append, List.singleton_append, takeString?]
    · rw [hshort]
    · intro a b d e more h
      exact absurd h hletter
  · -- a control character is no half of a pair of code units
    have hunit : ¬ (0xDC00 ≤ c.toNat ∧ c.toNat ≤ 0xDFFF) ∧
        ¬ (0xD800 ≤ c.toNat ∧ c.toNat ≤ 0xDBFF) := by
      omega
    rw [hc]
    simp only [List.cons_append, List.nil_append, takeString?, hexQuad?_hexDigit hcontrol,
      if_neg hunit.1, if_neg hunit.2, Char.ofNat_toNat]
  · rw [hc, List.singleton_append, takeString?]
    · rw [if_neg (not_or.2 ⟨hcontrol, hbackslash⟩)]
    · exact hquote
    · intro a b d e more h
      exact absurd h hbackslash
    · intro d more h
      exact absurd h hbackslash

theorem takeString?_flatMap (done text rest : Text) :
    takeString? done (text.flatMap escapeChar ++ '"' :: rest)
      = some (done.reverse ++ text, rest) := by
  induction text generalizing done with
  | nil =>
    rw [List.append_nil]
    rfl
  | cons c text ih =>
    rw [List.flatMap_cons, List.append_assoc, takeString?_escapeChar, ih, List.reverse_cons,
      List.append_assoc, List.singleton_append]

/-- A string comes back whatever characters it has. -/
theorem takeString?_writeString (text rest : Text) :
    ∃ inner, writeString text ++ rest = '"' :: inner ∧
      takeString? [] inner = some (text, rest) := by
  refine ⟨text.flatMap escapeChar ++ '"' :: rest, ?_, ?_⟩
  · rw [writeString, List.append_assoc, List.cons_append, List.singleton_append]
  · rw [takeString?_flatMap]
    rfl

/-! ## Numbers -/

section Numbers

variable {s rest left : Text}

/-- What may follow a document: nothing, or a separator. -/
def Stops (rest : Text) : Prop :=
  ∀ c ∈ rest.head?, c = ',' ∨ c = ']' ∨ c = '\x7d'

theorem stops_nil : Stops [] := by
  simp [Stops]

theorem stops_cons {c : Char} (h : c = ',' ∨ c = ']' ∨ c = '\x7d') : Stops (c :: rest) := by
  simpa [Stops] using h

theorem Stops.isDigit (h : Stops rest) : ∀ c ∈ rest.head?, c.isDigit = false := by
  intro c hc
  rcases h c hc with rfl | rfl | rfl <;> decide

theorem takeWhile_append_stops {p : Char → Bool} (h : ∀ c ∈ rest.head?, p c = false) (s : Text) :
    (s ++ rest).takeWhile p = s.takeWhile p := by
  induction s with
  | nil =>
    cases rest with
    | nil => rfl
    | cons c rest => rw [List.nil_append, List.takeWhile_cons_of_neg (by simp [h c rfl])]; rfl
  | cons d s ih =>
    rw [List.cons_append, List.takeWhile_cons, List.takeWhile_cons, ih]

theorem dropWhile_append_stops {p : Char → Bool} (h : ∀ c ∈ rest.head?, p c = false) (s : Text) :
    (s ++ rest).dropWhile p = s.dropWhile p ++ rest := by
  induction s with
  | nil =>
    cases rest with
    | nil => rfl
    | cons c rest => rw [List.nil_append, List.dropWhile_cons_of_neg (by simp [h c rfl])]; rfl
  | cons d s ih =>
    rw [List.cons_append, List.dropWhile_cons, List.dropWhile_cons, ih]
    split <;> rfl

theorem takeFraction?_point (s : Text) : takeFraction? ('.' :: s) =
    if (s.takeWhile Char.isDigit).isEmpty then none
    else some (some (s.takeWhile Char.isDigit), s.dropWhile Char.isDigit) := rfl

theorem takeFraction?_of_head (h : ∀ c ∈ s.head?, c ≠ '.') : takeFraction? s = some (none, s) := by
  unfold takeFraction?
  split
  · exact absurd rfl (h '.' rfl)
  · rfl

theorem takeFraction?_append {fraction : Option Text} (hrest : Stops rest)
    (h : takeFraction? s = some (fraction, left)) :
    takeFraction? (s ++ rest) = some (fraction, left ++ rest) := by
  cases s with
  | nil =>
    cases h
    refine takeFraction?_of_head fun c hc => ?_
    rcases hrest c hc with rfl | rfl | rfl <;> decide
  | cons c s =>
    by_cases hc : c = '.'
    · subst hc
      rw [takeFraction?_point] at h
      rw [List.cons_append, takeFraction?_point, takeWhile_append_stops hrest.isDigit,
        dropWhile_append_stops hrest.isDigit]
      split at h
      · cases h
      · next hdigits =>
        cases h
        rw [if_neg hdigits]
    · rw [takeFraction?_of_head (by simpa using hc)] at h
      cases h
      exact takeFraction?_of_head (by simpa using hc)

theorem splitSign_append (hrest : Stops rest) (s : Text) : Number.splitSign (s ++ rest)
    = ((Number.splitSign s).1, (Number.splitSign s).2 ++ rest) := by
  cases s with
  | nil =>
    cases rest with
    | nil => rfl
    | cons c rest => rcases hrest c rfl with rfl | rfl | rfl <;> rfl
  | cons c s =>
    by_cases hminus : c = '-'
    · subst hminus
      rfl
    by_cases hplus : c = '+'
    · subst hplus
      rfl
    have hsame : ∀ u, Number.splitSign (c :: u) = (false, c :: u) := by
      intro u
      unfold Number.splitSign
      split
      · next h => exact absurd (List.cons.inj h).1 hminus
      · next h => exact absurd (List.cons.inj h).1 hplus
      · rfl
    rw [List.cons_append, hsame, hsame]
    rfl

theorem takeExponent?_append {exponent : Option Int} (hrest : Stops rest)
    (h : takeExponent? s = some (exponent, left)) :
    takeExponent? (s ++ rest) = some (exponent, left ++ rest) := by
  cases s with
  | nil =>
    cases h
    cases rest with
    | nil => rfl
    | cons c rest =>
      have hc : ¬ (c = 'e' ∨ c = 'E') := by
        rcases hrest c rfl with rfl | rfl | rfl <;> decide
      rw [List.nil_append, takeExponent?, if_neg hc]
  | cons c s =>
    rw [takeExponent?] at h
    rw [List.cons_append, takeExponent?]
    by_cases hc : c = 'e' ∨ c = 'E'
    · rw [if_pos hc] at h ⊢
      simp only [splitSign_append hrest, takeWhile_append_stops hrest.isDigit,
        dropWhile_append_stops hrest.isDigit] at h ⊢
      split at h
      · cases h
      · next hdigits =>
        cases h
        rw [if_neg hdigits]
    · rw [if_neg hc] at h ⊢
      cases h
      rfl

/-- Takes a number without the minus before it. -/
def takeMagnitude? (negative : Bool) (body : Text) : Option (Number × Text) := do
  let whole := body.takeWhile Char.isDigit
  if whole.isEmpty || (1 < whole.length && whole.head? == some '0') then none
  let (fraction, afterFraction) ← takeFraction? (body.dropWhile Char.isDigit)
  let (exponent, rest) ← takeExponent? afterFraction
  let x ← magnitude? whole fraction exponent
  return (if negative then x.negate else x, rest)

theorem takeNumber?_minus (s : Text) : takeNumber? ('-' :: s) = takeMagnitude? true s := rfl

theorem takeNumber?_of_head (h : ∀ c ∈ s.head?, c ≠ '-') :
    takeNumber? s = takeMagnitude? false s := by
  cases s with
  | nil => rfl
  | cons c s =>
    unfold takeNumber?
    split
    next negative body hsign =>
    split at hsign
    · next hminus => exact absurd (List.cons.inj hminus).1 (h c rfl)
    · cases hsign
      rfl

theorem takeMagnitude?_append {negative : Bool} {x : Number} (hrest : Stops rest)
    (h : takeMagnitude? negative s = some (x, left)) :
    takeMagnitude? negative (s ++ rest) = some (x, left ++ rest) := by
  simp only [takeMagnitude?, Option.bind_eq_bind] at h ⊢
  rw [takeWhile_append_stops hrest.isDigit, dropWhile_append_stops hrest.isDigit]
  split at h
  · cases h
  · next hwhole =>
    obtain ⟨⟨fraction, afterFraction⟩, hfraction, h⟩ := Option.bind_eq_some_iff.1 h
    obtain ⟨⟨exponent, afterExponent⟩, hexponent, h⟩ := Option.bind_eq_some_iff.1 h
    obtain ⟨y, hy, h⟩ := Option.bind_eq_some_iff.1 h
    cases h
    rw [if_neg hwhole, takeFraction?_append hrest hfraction, Option.bind_some,
      takeExponent?_append hrest hexponent, Option.bind_some, hy]
    rfl

/-- A number begins with a minus or a digit. -/
theorem exists_of_takeNumber? {x : Number} (h : takeNumber? s = some (x, left)) :
    ∃ c t, s = c :: t ∧ (c = '-' ∨ c.isDigit = true) := by
  cases s with
  | nil => cases h
  | cons c t =>
    refine ⟨c, t, rfl, ?_⟩
    by_cases hc : c = '-'
    · exact .inl hc
    refine .inr ?_
    by_contra hdigit
    rw [takeNumber?_of_head (by simpa using hc), takeMagnitude?,
      List.takeWhile_cons_of_neg hdigit] at h
    cases h

/-- What follows a number does not change it. -/
theorem takeNumber?_append {x : Number} (hrest : Stops rest)
    (h : takeNumber? s = some (x, left)) : takeNumber? (s ++ rest) = some (x, left ++ rest) := by
  obtain ⟨c, t, rfl, -⟩ := exists_of_takeNumber? h
  by_cases hc : c = '-'
  · subst hc
    exact takeMagnitude?_append hrest h
  · rw [takeNumber?_of_head (by simpa using hc)] at h
    rw [takeNumber?_of_head (by simpa using hc)]
    exact takeMagnitude?_append hrest h

end Numbers

/-! ## Documents -/

section Documents

variable (f : Number → Number)

mutual

/-- A document with other numbers. -/
def mapNumbers : Json → Json
  | null => null
  | boolean b => boolean b
  | number x => number (f x)
  | string text => string text
  | array elements => array (mapElements elements)
  | object members => object (mapMembers members)

/-- The elements of an array with other numbers. -/
def mapElements : List Json → List Json
  | [] => []
  | element :: rest => mapNumbers element :: mapElements rest

/-- The members of an object with other numbers. -/
def mapMembers : List (Text × Json) → List (Text × Json)
  | [] => []
  | (name, value) :: rest => (name, mapNumbers value) :: mapMembers rest

end

/-- A document that is nested no deeper than `depth`, with distinct names in its objects and with
numbers of one kind. -/
def Regular (ok : Number → Prop) : Nat → Json → Prop
  | _, number x => ok x
  | _, null | _, boolean _ | _, string _ => True
  | 0, array _ | 0, object _ => False
  | depth + 1, array elements => ∀ e ∈ elements, Regular ok depth e
  | depth + 1, object members =>
    (members.map Prod.fst).Nodup ∧ ∀ m ∈ members, Regular ok depth m.2

theorem Regular.imp {p q : Number → Prop} (hpq : ∀ x, p x → q x) :
    ∀ (depth : Nat) {j : Json}, Regular p depth j → Regular q depth j
  | 0, number x, h | _ + 1, number x, h => hpq x h
  | 0, null, _ | _ + 1, null, _ | 0, boolean _, _ | _ + 1, boolean _, _ | 0, string _, _
  | _ + 1, string _, _ => True.intro
  | 0, array _, h | 0, object _, h => h.elim
  | depth + 1, array _, h => fun e he => Regular.imp hpq depth (h e he)
  | depth + 1, object _, h => ⟨h.1, fun m hm => Regular.imp hpq depth (h.2 m hm)⟩

/-- Whether the reader takes `f x` from the text of `x`. -/
def ReadsAs (x : Number) : Prop :=
  takeNumber? (writeNumber x) = some (f x, [])

/-- Whether the reader finds a document with `f` applied to its numbers, whatever follows. -/
def Reads (depth : Nat) (j : Json) : Prop :=
  ∀ (fuel : Nat) (rest : Text), 2 * (write j).length ≤ fuel → Stops rest →
    takeValue? fuel depth (write j ++ rest) = some (mapNumbers f j, rest)

variable {f} {depth fuel : Nat} {rest : Text}

theorem skipSpace_of_head (h : ∀ c ∈ rest.head?, isSpace c = false) : skipSpace rest = rest := by
  cases rest with
  | nil => rfl
  | cons c rest => exact List.dropWhile_cons_of_neg (by simp [h c rfl])

theorem skipSpace_cons {c : Char} (h : isSpace c = false) : skipSpace (c :: rest) = c :: rest :=
  skipSpace_of_head fun _ hd => Option.some.inj hd ▸ h

/-- No other kind of document, blank or bracket begins as a number does. -/
theorem ne_of_numberHead {c : Char} (h : c = '-' ∨ c.isDigit = true) : isSpace c = false ∧
    c ∉ ['n', 't', 'f', '"', '[', '\x7b', ']'] := by
  rcases h with rfl | hc
  · exact ⟨by decide, by decide⟩
  have hspace : ([' ', '\t', '\n', '\r'].all fun d => !d.isDigit) = true := by decide
  have hother : (['n', 't', 'f', '"', '[', '\x7b', ']'].all fun d => !d.isDigit) = true := by decide
  have hne : ∀ {ds : List Char}, (ds.all fun d => !d.isDigit) = true → c ∉ ds := by
    intro ds hds hmem
    have hdigit := List.all_eq_true.1 hds c hmem
    rw [hc] at hdigit
    cases hdigit
  refine ⟨?_, hne hother⟩
  have hnot := hne hspace
  simp only [List.mem_cons, List.not_mem_nil, or_false, not_or] at hnot
  simp [isSpace, hnot]

/-- No document begins with a blank or a closing bracket. -/
theorem exists_head_write {j : Json} (h : Regular (ReadsAs f) depth j) :
    ∃ c t, write j = c :: t ∧ isSpace c = false ∧ c ≠ ']' := by
  cases j with
  | null => exact ⟨'n', _, by rw [write]; rfl, by decide, by decide⟩
  | boolean b => cases b <;> exact ⟨_, _, by rw [write]; rfl, by decide, by decide⟩
  | number x =>
    have hx : ReadsAs f x := by cases depth <;> exact h
    obtain ⟨c, t, ht, hc⟩ := exists_of_takeNumber? hx
    obtain ⟨hspace, hother⟩ := ne_of_numberHead hc
    exact ⟨c, t, by rw [write, ht], hspace, by rintro rfl; exact hother (by simp)⟩
  | string text => exact ⟨'"', _, by rw [write]; rfl, by decide, by decide⟩
  | array elements => exact ⟨'[', _, by rw [write]; rfl, by decide, by decide⟩
  | object members => exact ⟨'\x7b', _, by rw [write]; rfl, by decide, by decide⟩

theorem takeValue?_number {c : Char} (h : c = '-' ∨ c.isDigit = true) (t : Text) :
    takeValue? (fuel + 1) depth (c :: t)
      = (takeNumber? (c :: t)).map fun (x, left) => (number x, left) := by
  obtain ⟨hspace, hother⟩ := ne_of_numberHead h
  simp only [List.mem_cons, List.not_mem_nil, or_false, not_or] at hother
  obtain ⟨hn, ht, hf, hquote, hbracket, hbrace, -⟩ := hother
  rw [takeValue?, skipSpace_cons hspace]
  split
  -- the last alternative is the one for numbers, and the others want another character
  case h_7 => rfl
  all_goals next heq => exact absurd (List.cons.inj heq).1 (by assumption)

theorem takeValue?_string (text rest : Text) :
    takeValue? (fuel + 1) depth (writeString text ++ rest) = some (string text, rest) := by
  obtain ⟨inner, hwrite, hinner⟩ := takeString?_writeString text rest
  rw [hwrite, takeValue?, skipSpace_cons (by decide)]
  simp only [hinner, Option.map_some]

/-- An array with elements is read through its elements. -/
theorem takeValue?_array {c : Char} (hspace : isSpace c = false) (hc : c ≠ ']') (t : Text) :
    takeValue? (fuel + 1) (depth + 1) ('[' :: c :: t)
      = (takeElements? fuel depth [] (c :: t)).map fun (es, left) => (array es, left) := by
  rw [takeValue?, skipSpace_cons (by decide)]
  simp only [skipSpace_cons hspace]
  split
  · next h => exact absurd (List.cons.inj h).1 hc
  · rfl

/-- An object with members is read through its members. -/
theorem takeValue?_object (t : Text) :
    takeValue? (fuel + 1) (depth + 1) ('\x7b' :: '"' :: t)
      = (takeMembers? fuel depth [] ('"' :: t)).map fun (ms, left) => (object ms, left) := by
  rw [takeValue?, skipSpace_cons (by decide)]
  simp only [skipSpace_cons (show isSpace '"' = false by decide)]
  rfl

theorem join_cons_cons (s t : Text) (more : List Text) :
    Text.join [','] (s :: t :: more) = s ++ ',' :: Text.join [','] (t :: more) := by
  rw [Text.join, List.intercalate_cons_cons, List.append_assoc, List.singleton_append]
  rfl

theorem exists_join_cons (c : Char) (t : Text) (more : List Text) :
    ∃ t', Text.join [','] ((c :: t) :: more) = c :: t' := by
  cases more with
  | nil => exact ⟨t, by rw [Text.join, List.intercalate_singleton]⟩
  | cons s more => exact ⟨_, by rw [join_cons_cons]; rfl⟩

/-- Elements that are read one by one are read together, after those read before. -/
theorem takeElements?_write {elements : List Json} (h : ∀ e ∈ elements, Reads f depth e)
    (hne : elements ≠ []) (done : List Json)
    (hfuel : 2 * (Text.join [','] (writeElements elements)).length + 1 ≤ fuel) :
    takeElements? fuel depth done (Text.join [','] (writeElements elements) ++ ']' :: rest)
      = some (done.reverse ++ mapElements f elements, rest) := by
  induction elements generalizing fuel done with
  | nil => exact absurd rfl hne
  | cons e more ih =>
    obtain ⟨fuel, rfl⟩ : ∃ n, fuel = n + 1 := ⟨fuel - 1, by omega⟩
    have he := h e List.mem_cons_self
    -- a comma follows every element but the last, which the bracket follows
    cases more with
    | nil =>
      rw [writeElements, writeElements, Text.join, List.intercalate_singleton] at hfuel ⊢
      rw [takeElements?, he fuel (']' :: rest) (by omega) (stops_cons (by simp))]
      simp only [skipSpace_cons (show isSpace ']' = false by decide), mapElements,
        List.reverse_cons]
    | cons e' more =>
      have hjoin : Text.join [','] (writeElements (e :: e' :: more))
          = write e ++ ',' :: Text.join [','] (writeElements (e' :: more)) := by
        rw [writeElements, writeElements, join_cons_cons]
      rw [hjoin] at hfuel ⊢
      rw [List.length_append, List.length_cons] at hfuel
      have hrest := ih (fun d hd => h d (List.mem_cons_of_mem e hd)) (List.cons_ne_nil e' more)
        (mapNumbers f e :: done) (show _ ≤ fuel by omega)
      rw [List.append_assoc, List.cons_append, takeElements?,
        he fuel _ (by omega) (stops_cons (.inl rfl))]
      simp only [skipSpace_cons (show isSpace ',' = false by decide), hrest, List.reverse_cons,
        List.append_assoc, List.singleton_append, mapElements]

section Members

variable {name t left : Text} {value : Json} {done : List (Text × Json)}

/-- The last member of an object. -/
theorem takeMembers?_last (h : takeValue? fuel depth t = some (value, '\x7d' :: left)) :
    takeMembers? (fuel + 1) depth done (writeString name ++ ':' :: t)
      = some (((name, value) :: done).reverse, left) := by
  obtain ⟨inner, hwrite, hinner⟩ := takeString?_writeString name (':' :: t)
  rw [hwrite, takeMembers?, skipSpace_cons (by decide)]
  simp only [hinner, skipSpace_cons (show isSpace ':' = false by decide), h,
    skipSpace_cons (show isSpace '\x7d' = false by decide)]

/-- A member with more members behind it. -/
theorem takeMembers?_next (h : takeValue? fuel depth t = some (value, ',' :: left)) :
    takeMembers? (fuel + 1) depth done (writeString name ++ ':' :: t)
      = takeMembers? fuel depth ((name, value) :: done) left := by
  obtain ⟨inner, hwrite, hinner⟩ := takeString?_writeString name (':' :: t)
  rw [hwrite, takeMembers?, skipSpace_cons (by decide)]
  simp only [hinner, skipSpace_cons (show isSpace ':' = false by decide), h,
    skipSpace_cons (show isSpace ',' = false by decide)]

end Members

theorem takeMembers?_write {members : List (Text × Json)} (h : ∀ m ∈ members, Reads f depth m.2)
    (hne : members ≠ []) (done : List (Text × Json))
    (hfuel : 2 * (Text.join [','] (writeMembers members)).length + 1 ≤ fuel) :
    takeMembers? fuel depth done (Text.join [','] (writeMembers members) ++ '\x7d' :: rest)
      = some (done.reverse ++ mapMembers f members, rest) := by
  induction members generalizing fuel done with
  | nil => exact absurd rfl hne
  | cons m more ih =>
    obtain ⟨fuel, rfl⟩ : ∃ n, fuel = n + 1 := ⟨fuel - 1, by omega⟩
    obtain ⟨name, value⟩ := m
    have hvalue : Reads f depth value := h (name, value) List.mem_cons_self
    cases more with
    | nil =>
      rw [writeMembers, writeMembers, Text.join, List.intercalate_singleton] at hfuel ⊢
      rw [List.length_append, List.length_cons] at hfuel
      rw [List.append_assoc, List.cons_append, takeMembers?_last
        (hvalue fuel ('\x7d' :: rest) (by omega) (stops_cons (by simp))), List.reverse_cons]
      rfl
    | cons m' more =>
      obtain ⟨name', value'⟩ := m'
      have hjoin : Text.join [','] (writeMembers ((name, value) :: (name', value') :: more))
          = writeString name ++ ':' ::
            (write value ++ ',' :: Text.join [','] (writeMembers ((name', value') :: more))) := by
        rw [writeMembers, writeMembers, join_cons_cons, List.append_assoc, List.cons_append]
      rw [hjoin] at hfuel ⊢
      rw [List.length_append, List.length_cons, List.length_append, List.length_cons] at hfuel
      have hrest := ih (fun m hm => h m (List.mem_cons_of_mem _ hm)) (List.cons_ne_nil _ more)
        ((name, mapNumbers f value) :: done) (show _ ≤ fuel by omega)
      rw [List.append_assoc, List.cons_append, List.append_assoc, List.cons_append,
        takeMembers?_next (hvalue fuel _ (by omega) (stops_cons (.inl rfl))), hrest,
        List.reverse_cons, List.append_assoc]
      rfl

theorem reads_scalar {j scalar : Json} {text : Text} (hwrite : write j = text)
    (hmap : mapNumbers f j = scalar) (hne : text ≠ [])
    (h : ∀ fuel rest, Stops rest →
      takeValue? (fuel + 1) depth (text ++ rest) = some (scalar, rest)) : Reads f depth j := by
  intro fuel rest hfuel hrest
  rw [hwrite] at hfuel ⊢
  have hpos := List.length_pos_iff.2 hne
  obtain ⟨fuel, rfl⟩ : ∃ n, fuel = n + 1 := ⟨fuel - 1, by omega⟩
  rw [h fuel rest hrest, hmap]

theorem reads_number {x : Number} (h : ReadsAs f x) : Reads f depth (number x) := by
  obtain ⟨c, t, ht, hc⟩ := exists_of_takeNumber? h
  refine reads_scalar (by rw [write]) (by rw [mapNumbers]) (by rw [ht]; simp) ?_
  intro fuel rest hrest
  have hnumber := takeNumber?_append hrest h
  rw [ht, List.cons_append] at hnumber
  rw [ht, List.cons_append, takeValue?_number hc, hnumber]
  rfl

theorem reads_array {elements : List Json} (h : ∀ e ∈ elements, Reads f depth e)
    (hhead : ∀ e ∈ elements, ∃ c t, write e = c :: t ∧ isSpace c = false ∧ c ≠ ']') :
    Reads f (depth + 1) (array elements) := by
  intro fuel rest hfuel hrest
  rw [write, List.length_append, List.length_cons, List.length_singleton] at hfuel
  obtain ⟨fuel, rfl⟩ : ∃ n, fuel = n + 1 := ⟨fuel - 1, by omega⟩
  rw [write, List.append_assoc, List.cons_append, List.singleton_append, mapNumbers]
  cases elements with
  | nil => rfl
  | cons e more =>
    -- whether an array is empty is seen from the first character of its first element
    have htake : takeElements? fuel depth []
        (Text.join [','] (writeElements (e :: more)) ++ ']' :: rest)
        = some (mapElements f (e :: more), rest) :=
      takeElements?_write h (List.cons_ne_nil e more) [] (by omega)
    obtain ⟨c, t, ht, hspace, hc⟩ := hhead e List.mem_cons_self
    obtain ⟨t', ht'⟩ := exists_join_cons c t (writeElements more)
    rw [writeElements, ht, ht', List.cons_append] at htake ⊢
    rw [takeValue?_array hspace hc, htake]
    rfl

theorem reads_object {members : List (Text × Json)} (h : ∀ m ∈ members, Reads f depth m.2) :
    Reads f (depth + 1) (object members) := by
  intro fuel rest hfuel hrest
  rw [write, List.length_append, List.length_cons, List.length_singleton] at hfuel
  obtain ⟨fuel, rfl⟩ : ∃ n, fuel = n + 1 := ⟨fuel - 1, by omega⟩
  rw [write, List.append_assoc, List.cons_append, List.singleton_append, mapNumbers]
  cases members with
  | nil => rfl
  | cons m more =>
    have htake : takeMembers? fuel depth []
        (Text.join [','] (writeMembers (m :: more)) ++ '\x7d' :: rest)
        = some (mapMembers f (m :: more), rest) :=
      takeMembers?_write h (List.cons_ne_nil m more) [] (by omega)
    obtain ⟨name, value⟩ := m
    obtain ⟨t', ht'⟩ := exists_join_cons '"'
      (name.flatMap escapeChar ++ ['"'] ++ ':' :: write value) (writeMembers more)
    have hfirst : writeString name ++ ':' :: write value
        = '"' :: (name.flatMap escapeChar ++ ['"'] ++ ':' :: write value) := rfl
    rw [writeMembers, hfirst, ht', List.cons_append] at htake ⊢
    rw [takeValue?_object, htake]
    rfl

/-- A regular document is found in its text. -/
theorem reads_of_regular : ∀ (depth : Nat) {j : Json}, Regular (ReadsAs f) depth j →
    Reads f depth j
  | _, null, _ => reads_scalar (by rw [write]) (by rw [mapNumbers]) (by decide) fun _ _ _ => rfl
  | _, boolean true, _ =>
    reads_scalar (by rw [write]) (by rw [mapNumbers]) (by decide) fun _ _ _ => rfl
  | _, boolean false, _ =>
    reads_scalar (by rw [write]) (by rw [mapNumbers]) (by decide) fun _ _ _ => rfl
  | 0, number _, h => reads_number h
  | _ + 1, number _, h => reads_number h
  | _, string text, _ =>
    reads_scalar (by rw [write]) (by rw [mapNumbers]) (by rw [writeString]; simp)
      fun _ rest _ => takeValue?_string text rest
  | 0, array _, h | 0, object _, h => h.elim
  | depth + 1, array _, h =>
    reads_array (fun e he => reads_of_regular depth (h e he)) fun e he => exists_head_write (h e he)
  | depth + 1, object _, h => reads_object fun m hm => reads_of_regular depth (h.2 m hm)

/-- The reader finds a document in its text, with its numbers as they are read. -/
theorem read?_write {j : Json} (h : Regular (ReadsAs f) maxDepth j) :
    read? (write j) = some (mapNumbers f j) := by
  have hread := reads_of_regular maxDepth h (2 * (write j).length + 2) [] (by omega) stops_nil
  rw [List.append_nil] at hread
  rw [read?, hread]
  rfl

end Documents

end Json

end Grimoire
