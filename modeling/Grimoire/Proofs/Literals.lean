import Grimoire.Machine
import Grimoire.Proofs.Documents
import Grimoire.Proofs.Recognizers
import Grimoire.Proofs.Words

/-!
# String literals and JSON strings

A JSON string is a string literal: no bare quote is inside and no escape is cut off. The two are
read apart from each other. Both take an escape for the same character unless it is half of a pair
of code units; the pair is one character in JSON and two replacement characters in a literal.
-/

namespace Grimoire

/-! ## The inside of a string -/

/-- Whether a code unit is half of a pair. -/
def isSurrogate (unit : Nat) : Bool :=
  0xD800 ≤ unit && unit ≤ 0xDFFF

theorem isSurrogate_iff {unit : Nat} :
    isSurrogate unit = true ↔ 0xD800 ≤ unit ∧ unit ≤ 0xDFFF := by
  simp [isSurrogate]

/-- The inside of a JSON string, its text in JSON and its text as a literal. -/
inductive StringBody : Text → Text → Text → Prop
  | nil : StringBody [] [] []
  | plain {c : Char} {body json literal : Text} : c ≠ '"' → c ≠ '\\' →
      StringBody body json literal → StringBody (c :: body) (c :: json) (c :: literal)
  | short {letter c : Char} {body json literal : Text} : Json.shortEscape? letter = some c →
      StringBody body json literal →
        StringBody ('\\' :: letter :: body) (c :: json) (c :: literal)
  | unit {a b c d : Char} {unit : Nat} {body json literal : Text} :
      Json.hexQuad? a b c d = some unit → isSurrogate unit = false →
        StringBody body json literal →
          StringBody ('\\' :: 'u' :: a :: b :: c :: d :: body) (Char.ofNat unit :: json)
            (Char.ofNat unit :: literal)
  | pair {a b c d e f g h : Char} {high low : Nat} {body json literal : Text} :
      Json.hexQuad? a b c d = some high → Json.hexQuad? e f g h = some low →
        isSurrogate high = true → isSurrogate low = true → StringBody body json literal →
          StringBody ('\\' :: 'u' :: a :: b :: c :: d :: '\\' :: 'u' :: e :: f :: g :: h :: body)
            (Char.ofNat (0x10000 + (high - 0xD800) * 0x400 + (low - 0xDC00)) :: json)
            ('\ufffd' :: '\ufffd' :: literal)

variable {body json literal s : Text} {a b c d : Char} {unit : Nat}

/-! ## Reading in JSON -/

namespace Json

/-- What is taken up to a closing quote is the inside of a string. -/
theorem exists_of_takeString? {done text rest : Text}
    (h : takeString? done s = some (text, rest)) :
    ∃ body json literal, s = body ++ '"' :: rest ∧ text = done.reverse ++ json ∧
      StringBody body json literal := by
  fun_induction takeString? done s with
  | case2 done left =>
    cases h
    exact ⟨[], [], [], rfl, (List.append_nil _).symm, .nil⟩
  | case6 done a b c d high hhigh _ hrange e f g h' left low hlow hrange' both ih =>
    obtain ⟨body, json, literal, rfl, rfl, hbody⟩ := ih h
    have hhalf : isSurrogate high = true := isSurrogate_iff.2 (by omega)
    have hhalf' : isSurrogate low = true := isSurrogate_iff.2 (by omega)
    exact ⟨_, _, _, rfl, by simp [both], .pair hhigh hlow hhalf hhalf' hbody⟩
  | case9 done a b c d left unit hunit hlow hhigh ih =>
    obtain ⟨body, json, literal, rfl, rfl, hbody⟩ := ih h
    have hwhole : isSurrogate unit = false := by
      rw [← Bool.not_eq_true, isSurrogate_iff]
      omega
    exact ⟨_, _, _, rfl, by simp, .unit hunit hwhole hbody⟩
  | case11 done letter left _ c hshort ih =>
    obtain ⟨body, json, literal, rfl, rfl, hbody⟩ := ih h
    exact ⟨_, _, _, rfl, by simp, .short hshort hbody⟩
  | case13 done c left hquote _ _ hplain ih =>
    obtain ⟨body, json, literal, rfl, rfl, hbody⟩ := ih h
    exact ⟨_, _, _, rfl, by simp, .plain hquote (not_or.1 hplain).2 hbody⟩
  | _ => cases h

theorem exists_of_takeValue? {fuel depth : Nat} {text rest : Text}
    (h : takeValue? (fuel + 1) depth s = some (.string text, rest)) :
    ∃ inner, skipSpace s = '"' :: inner ∧ takeString? [] inner = some (text, rest) := by
  rw [takeValue?] at h
  split at h
  case h_4 inner hinner =>
    obtain ⟨⟨taken, left⟩, htake, heq⟩ := Option.map_eq_some_iff.1 h
    cases heq
    exact ⟨inner, hinner, htake⟩
  all_goals
    -- nothing else that begins a value is a string
    repeat' split at h
    all_goals simp at h

/-- A document that is a string is the string in quotes between blanks. -/
theorem exists_of_read? {document text : Text} (h : read? document = some (.string text)) :
    ∃ before body after literal, document = before ++ '"' :: (body ++ '"' :: after) ∧
      (∀ c ∈ before, isSpace c = true) ∧ (∀ c ∈ after, isSpace c = true) ∧
        StringBody body text literal := by
  unfold read? at h
  split at h
  · next j after htake =>
    split at h
    · next hafter =>
      cases h
      obtain ⟨inner, hinner, hstring⟩ := exists_of_takeValue? htake
      obtain ⟨body, json, literal, rfl, rfl, hbody⟩ := exists_of_takeString? hstring
      refine ⟨document.takeWhile isSpace, body, after, literal, ?_, ?_, ?_, hbody⟩
      · rw [← hinner]
        exact List.takeWhile_append_dropWhile.symm
      · exact fun c hc => List.mem_takeWhile_imp hc
      · exact List.dropWhile_eq_nil_iff.1 (List.isEmpty_iff.1 hafter)
    · cases h
  · cases h

/-- A string in quotes between blanks is a document. -/
theorem read?_of_takeString? {before inner text after : Text}
    (hbefore : ∀ c ∈ before, isSpace c = true) (h : takeString? [] inner = some (text, after))
    (hafter : ∀ c ∈ after, isSpace c = true) :
    read? (before ++ '"' :: inner) = some (.string text) := by
  have hstart : skipSpace (before ++ '"' :: inner) = '"' :: inner := by
    rw [skipSpace, List.dropWhile_append_of_pos hbefore]
    rfl
  have hend : skipSpace after = [] := List.dropWhile_eq_nil_iff.2 hafter
  simp only [read?, takeValue?, hstart, h, Option.map_some, hend, List.isEmpty_nil, if_true]

/-- Four digits of base sixteen have their values. -/
theorem exists_of_hexQuad? (h : hexQuad? a b c d = some unit) :
    ∃ i j k l, hexValue? a = some i ∧ hexValue? b = some j ∧ hexValue? c = some k ∧
      hexValue? d = some l ∧ unit = ((i * 16 + j) * 16 + k) * 16 + l := by
  simp only [hexQuad?, Option.bind_eq_bind, Option.bind_eq_some_iff, Option.pure_def,
    Option.some.injEq] at h
  obtain ⟨i, hi, j, hj, k, hk, l, hl, rfl⟩ := h
  exact ⟨i, j, k, l, hi, hj, hk, hl, rfl⟩

theorem ne_of_hexValue? {n : Nat} (h : hexValue? c = some n) : c ≠ '"' ∧ c ≠ '\\' ∧ c ≠ '+' := by
  refine ⟨?_, ?_, ?_⟩ <;> rintro rfl <;> cases h

theorem ne_u_of_shortEscape? {letter : Char} (h : shortEscape? letter = some c) :
    letter ≠ 'u' := by
  rintro rfl
  cases h

end Json

/-! ## Reading as a literal -/

namespace Text

theorem shortEscape?_eq (letter : Char) : shortEscape? letter = Json.shortEscape? letter := by
  unfold shortEscape? Json.shortEscape?
  split <;> first | rfl | (split <;> simp_all)

/-- Four digits of base sixteen are the same code unit, of which a half of a pair is no
character. -/
theorem unicodeEscape?_of_hexQuad? (h : Json.hexQuad? a b c d = some unit) :
    unicodeEscape? a b c d = some (if isSurrogate unit then '\ufffd' else Char.ofNat unit) := by
  obtain ⟨i, j, k, l, hi, hj, hk, hl, rfl⟩ := Json.exists_of_hexQuad? h
  have hsame : ∀ c, hexValue? c = Json.hexValue? c := fun _ => rfl
  have hcode : hexDigits? [a, b, c, d] = some (((i * 16 + j) * 16 + k) * 16 + l) := by
    simp [hexDigits?, hsame, hi, hj, hk, hl]
  simp only [unicodeEscape?, if_neg (Json.ne_of_hexValue? hi).2.2, hcode, Option.map_some,
    isSurrogate_iff]

theorem escapesClosed_of_hexQuad? (h : Json.hexQuad? a b c d = some unit) (s : Text) :
    escapesClosed ('\\' :: 'u' :: a :: b :: c :: d :: s) = escapesClosed s := by
  obtain ⟨i, j, k, l, hi, hj, hk, hl, -⟩ := Json.exists_of_hexQuad? h
  have hcons : ∀ {e : Char} {n : Nat}, Json.hexValue? e = some n → ∀ t,
      escapesClosed (e :: t) = escapesClosed t := fun he t =>
    escapesClosed_cons (Json.ne_of_hexValue? he).1 (Json.ne_of_hexValue? he).2.1 t
  rw [escapesClosed, hcons hi, hcons hj, hcons hk, hcons hl]

theorem unescape_of_shortEscape? {letter : Char} (h : Json.shortEscape? letter = some c)
    (s : Text) : unescape ('\\' :: letter :: s) = c :: unescape s := by
  rw [unescape, shortEscape?_eq, h]
  intro a b e f rest hletter
  exact absurd hletter (Json.ne_u_of_shortEscape? h)

theorem unescape_of_hexQuad? (h : Json.hexQuad? a b c d = some unit) (s : Text) :
    unescape ('\\' :: 'u' :: a :: b :: c :: d :: s) =
      (if isSurrogate unit then '\ufffd' else Char.ofNat unit) :: unescape s := by
  rw [unescape, unicodeEscape?_of_hexQuad? h]

/-- Whether an escape in a text is for half of a pair of code units. -/
def escapesSurrogate : Text → Bool
  | [] => false
  | '\\' :: 'u' :: a :: b :: c :: d :: rest =>
    (Json.hexQuad? a b c d).any isSurrogate || escapesSurrogate rest
  | '\\' :: _ :: rest => escapesSurrogate rest
  | _ :: rest => escapesSurrogate rest

theorem escapesSurrogate_cons (hbackslash : c ≠ '\\') (s : Text) :
    escapesSurrogate (c :: s) = escapesSurrogate s := by
  rw [escapesSurrogate]
  · intro a b e f rest hc
    exact absurd hc hbackslash
  · intro e rest hc
    exact absurd hc hbackslash

theorem escapesSurrogate_of_shortEscape? {letter : Char} (h : Json.shortEscape? letter = some c)
    (s : Text) : escapesSurrogate ('\\' :: letter :: s) = escapesSurrogate s := by
  rw [escapesSurrogate]
  intro a b e f rest hletter
  exact absurd hletter (Json.ne_u_of_shortEscape? h)

theorem escapesSurrogate_of_hexQuad? (h : Json.hexQuad? a b c d = some unit) (s : Text) :
    escapesSurrogate ('\\' :: 'u' :: a :: b :: c :: d :: s) =
      (isSurrogate unit || escapesSurrogate s) := by
  rw [escapesSurrogate, h]
  rfl

theorem escapesSurrogate_append_of_forall {t : Text} (h : ∀ c ∈ t, c ≠ '\\') (s : Text) :
    escapesSurrogate (t ++ s) = escapesSurrogate s := by
  induction t with
  | nil => rfl
  | cons c t ih =>
    rw [List.cons_append, escapesSurrogate_cons (h c List.mem_cons_self)]
    exact ih fun e he => h e (List.mem_cons_of_mem _ he)

end Text

/-! ## Both readings -/

namespace StringBody

theorem escapesClosed (h : StringBody body json literal) : body.escapesClosed = true := by
  induction h with
  | nil => rfl
  | plain hquote hbackslash _ ih => rw [Text.escapesClosed_cons hquote hbackslash, ih]
  | short _ _ ih => exact ih
  | unit hunit _ _ ih => rw [Text.escapesClosed_of_hexQuad? hunit, ih]
  | pair hhigh hlow _ _ _ ih =>
    rw [Text.escapesClosed_of_hexQuad? hhigh, Text.escapesClosed_of_hexQuad? hlow, ih]

theorem unescape (h : StringBody body json literal) : body.unescape = literal := by
  induction h with
  | nil => rfl
  | plain _ hbackslash _ ih => rw [Text.unescape_cons hbackslash, ih]
  | short hshort _ ih => rw [Text.unescape_of_shortEscape? hshort, ih]
  | unit hunit hwhole _ ih => rw [Text.unescape_of_hexQuad? hunit, hwhole, ih, if_neg (by decide)]
  | pair hhigh hlow hhalf hhalf' _ ih =>
    rw [Text.unescape_of_hexQuad? hhigh, Text.unescape_of_hexQuad? hlow, hhalf, hhalf', ih,
      if_pos rfl, if_pos rfl]

/-- A literal is not shorter, and it is longer by a character for each pair. -/
theorem length_le (h : StringBody body json literal) : json.length ≤ literal.length := by
  induction h with
  | nil => exact Nat.le_refl 0
  | plain _ _ _ ih | short _ _ ih | unit _ _ _ ih => exact Nat.succ_le_succ ih
  | pair _ _ _ _ _ ih => exact Nat.le_succ_of_le (Nat.succ_le_succ ih)

/-- The two texts are the same exactly if no escape is for half of a pair. -/
theorem literal_eq_iff (h : StringBody body json literal) {rest : Text}
    (hrest : rest.escapesSurrogate = false) :
    literal = json ↔ Text.escapesSurrogate (body ++ rest) = false := by
  induction h with
  | nil => simp [hrest]
  | plain _ hbackslash _ ih =>
    rw [List.cons_append, Text.escapesSurrogate_cons hbackslash, ← ih, List.cons_inj_right]
  | short hshort _ ih =>
    rw [List.cons_append, List.cons_append, Text.escapesSurrogate_of_shortEscape? hshort, ← ih,
      List.cons_inj_right]
  | unit hunit hwhole _ ih =>
    simp only [List.cons_append]
    rw [Text.escapesSurrogate_of_hexQuad? hunit, hwhole, Bool.false_or, ← ih, List.cons_inj_right]
  | pair hhigh _ hhalf _ hbody _ =>
    simp only [List.cons_append]
    rw [Text.escapesSurrogate_of_hexQuad? hhigh, hhalf, Bool.true_or]
    have hle := hbody.length_le
    refine iff_of_false (fun heq => ?_) (by decide)
    have hlength := congrArg List.length heq
    simp only [List.length_cons] at hlength
    omega

end StringBody

/-! ## Documents -/

theorem isBlank_of_isSpace {c : Char} (h : Json.isSpace c = true) : isBlank c = true := by
  simp only [Json.isSpace, Bool.or_eq_true, beq_iff_eq] at h
  rcases h with ((rfl | rfl) | rfl) | rfl <;> decide

/-- The inside of a JSON string in quotes is read as a literal. -/
theorem Layer.of_stringBody (h : StringBody body json literal) :
    Layer.of ('"' :: (body ++ ['"'])) = .text literal := by
  have htriple : Text.tripleQuoted? ('"' :: (body ++ ['"'])) = none := by
    refine Text.tripleQuoted?_eq_none ?_ rfl
    cases h with
    | plain hquote _ _ => simp [Text.startsWith, List.isPrefixOf, hquote.symm]
    | _ => rfl
  have hquoted : Text.quoted? ('"' :: (body ++ ['"'])) = some body := by
    simp [Text.quoted?, Text.dropFirst?, Text.dropLast?, h.escapesClosed]
  simp only [Layer.of, htriple, hquoted, h.unescape]

/-- A JSON document that is a string is decoded to its text and evaluated to a text as well. The two
are the same exactly if no escape in the document is for half of a pair of code units. -/
theorem Json.evaluated_eq_decoded_iff {σ : Type} {document text : Text}
    (h : read? document = some (.string text)) (store : Store) (m : Machine σ) :
    store.decode document = .ok (.string text, store) ∧
      ∃ literal, (Run.evaluate (Eval.value document)).run.run m = (.ok (.string literal), m) ∧
        (literal = text ↔ document.escapesSurrogate = false) := by
  obtain ⟨before, body, after, literal, hdocument, hbefore, hafter, hbody⟩ := exists_of_read? h
  have hquote := Text.firm_singleton (c := '"') (by decide)
  have hplain : ∀ s : Text, (∀ c ∈ s, isSpace c = true) → ∀ c ∈ s, c ≠ '\\' := by
    rintro s hs c hc rfl
    exact absurd (hs _ hc) (by decide)
  refine ⟨?_, literal, ?_, ?_⟩
  · rw [Store.decode, h]
    rfl
  · have htrim := (hquote.append body hquote).trim (fun c hc => isBlank_of_isSpace (hbefore c hc))
      fun c hc => isBlank_of_isSpace (hafter c hc)
    have hdocument : document = before ++ (['"'] ++ (body ++ ['"']) ++ after) := by
      rw [hdocument]
      simp
    rw [← hdocument, List.singleton_append] at htrim
    rw [Eval.value, Expr.ofText_eq_assemble, htrim, Layer.of_stringBody hbody]
    rfl
  · have hrest : Text.escapesSurrogate ('"' :: after) = false := by
      rw [Text.escapesSurrogate_cons (by decide), ← List.append_nil after,
        Text.escapesSurrogate_append_of_forall (hplain after hafter)]
      rfl
    rw [hbody.literal_eq_iff hrest, hdocument,
      Text.escapesSurrogate_append_of_forall (hplain before hbefore),
      Text.escapesSurrogate_cons (by decide)]

/-- A document with escapes of every kind but pairs between blanks, and one with a pair. -/
theorem Json.evaluated_eq_decoded_iff_emoji :
    read? " \"a\\n\\\"\\u00e9\\/\"\n".toList = some (.string "a\n\"é/".toList) ∧
      (Run.evaluate (Eval.value " \"a\\n\\\"\\u00e9\\/\"\n".toList)).run.run
          (Machine.fresh {} .standard default ({} : Transcript)) =
        (.ok (.string "a\n\"é/".toList), Machine.fresh {} .standard default {}) ∧
      read? "\"\\ud83d\\ude00\"".toList = some (.string "😀".toList) ∧
      ∃ literal,
        (Run.evaluate (Eval.value "\"\\ud83d\\ude00\"".toList)).run.run
            (Machine.fresh {} .standard default ({} : Transcript)) =
          (.ok (.string literal), Machine.fresh {} .standard default {}) ∧
        literal ≠ "😀".toList := by
  have hwhole : read? " \"a\\n\\\"\\u00e9\\/\"\n".toList = some (.string "a\n\"é/".toList) :=
    @read?_of_takeString? [' '] "a\\n\\\"\\u00e9\\/\"\n".toList _ ['\n'] (by decide)
      (by decide +kernel) (by decide)
  have hpair : read? "\"\\ud83d\\ude00\"".toList = some (.string "😀".toList) :=
    @read?_of_takeString? [] "\\ud83d\\ude00\"".toList _ [] (by decide) (by decide +kernel)
      (by decide)
  obtain ⟨-, whole, heval, hsame⟩ := evaluated_eq_decoded_iff hwhole {}
    (Machine.fresh {} .standard default ({} : Transcript))
  obtain ⟨-, literal, heval', hsame'⟩ := evaluated_eq_decoded_iff hpair {}
    (Machine.fresh {} .standard default ({} : Transcript))
  rw [hsame.2 (by decide +kernel)] at heval
  refine ⟨hwhole, heval, hpair, literal, heval', fun heq => ?_⟩
  exact absurd (hsame'.1 heq) (by decide +kernel)

end Grimoire
