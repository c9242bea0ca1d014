import Grimoire.Proofs.Recognizers

/-!
# Atoms

An atom is a text of one of the forms that no operator is needed for: a numeral, a word, a string
literal, or something in brackets. An atom alone has the form that it looks like. An atom with an
operator behind it has none of these forms, whatever the text goes on with, so what decides about it
is the split at its main operator.
-/

namespace Grimoire

namespace Text

open Nesting

variable {s t : Text}

/-- A tome with a text between its braces. -/
def tomeText (inner : Text) : Text :=
  "Tome ".toList ++ '\x7b' :: (inner ++ ['\x7d'])

/-- The texts that stand alone or before the first operator. -/
inductive Atom : Text → Prop where
  | numeral {s : Text} (h : s.isNumeral = true) : Atom s
  | word {s : Text} (hne : s ≠ []) (h : ∀ c ∈ s, isWord c = true) : Atom s
  | literal (s : Text) : Atom (literal s)
  | sequence {inner : Text} (h : Balanced inner) : Atom ('[' :: (inner ++ [']']))
  | group {inner : Text} (h : Balanced inner) : Atom ('(' :: (inner ++ [')']))
  | tome {inner : Text} (h : Balanced inner) : Atom (tomeText inner)

/-! ## Atoms as operands -/

theorem piece_of_plain (hne : s ≠ []) (h : ∀ c ∈ s, isPlain c = true) : Piece s where
  balanced := balanced_of_plain fun c hc => delimits_of_isPlain (h c hc)
  commas := misses_of_forall fun c hc => by
    rw [beq_eq_false_iff_ne]
    rintro rfl
    exact absurd (h ',' hc) (by decide)
  firm := firm_of_forall hne fun c hc => isBlank_of_isPlain (h c hc)

theorem misses_isOperator_of_plain {n : Nesting} (h : ∀ c ∈ s, isPlain c = true) :
    Misses isOperator n s :=
  misses_of_forall fun c hc => by rw [isOperator, ofChar?_of_isPlain (h c hc)]; rfl

theorem operand_of_plain (hne : s ≠ []) (h : ∀ c ∈ s, isPlain c = true) (tightness : Nat) :
    Operand tightness s :=
  (piece_of_plain hne h).operand (misses_isOperator_of_plain h) tightness

theorem isPlain_of_digits {d : Char} {body : Text} (hd : isDigit d = true)
    (hbody : ∀ c ∈ body, isDigit c = true ∨ c = '.') : ∀ c ∈ d :: body, isPlain c = true := by
  intro c hc
  rcases List.mem_cons.1 hc with rfl | hc
  · exact isPlain_of_isWord (isWord_of_isDigit hd)
  rcases hbody c hc with hc | rfl
  · exact isPlain_of_isWord (isWord_of_isDigit hc)
  · decide

/-- The minus of a numeral is no operator, since a digit follows it and not a blank. -/
theorem operand_of_isNumeral (h : s.isNumeral = true) (tightness : Nat) : Operand tightness s := by
  obtain ⟨sign, d, body, rfl, hsign, hd, hbody⟩ := exists_of_isNumeral h
  have hplain := isPlain_of_digits hd hbody
  have hdigits := operand_of_plain (List.cons_ne_nil d body) hplain tightness
  rcases hsign with rfl | rfl
  · exact hdigits
  -- a scan for operators passes the minus and goes on with the digits
  refine ⟨⟨.cons (by decide) hdigits.balanced, ⟨fun _ => rfl, hdigits.commas⟩, ?_⟩, ?_⟩
  · refine firm_of_forall (List.cons_ne_nil '-' (d :: body)) fun c hc => ?_
    rcases List.mem_cons.1 hc with rfl | hc
    · decide
    · exact isBlank_of_isPlain (hplain c hc)
  · intro afterBlank place t
    obtain ⟨found, htight, hfound⟩ := hdigits.operators false (place + 1) t
    refine ⟨found, htight, ?_⟩
    have hminus : operatorsFrom {} afterBlank place ('-' :: d :: (body ++ t))
        = operatorsFrom {} false (place + 1) (d :: (body ++ t)) := by
      have hblank := isBlank_of_isPlain (hplain d List.mem_cons_self)
      have hfeed : ({} : Nesting).feed '-' = {} := rfl
      have hnone : isBlank '-' = false := by decide
      rw [operatorsFrom, hfeed, hnone]
      simp [Operator.ofChar?, hblank]
    have hlength : place + (['-'] ++ d :: body).length = place + 1 + (d :: body).length := by
      rw [List.length_append, List.length_singleton, Nat.add_assoc]
    rw [hlength]
    exact hminus.trans hfound

/-- Nothing of the text stands at the top level. -/
theorem operand_of_hidden (hb : Balanced s) (hh : Hidden {} s) (hf : Firm s) (tightness : Nat) :
    Operand tightness s :=
  Piece.operand ⟨hb, hh.misses, hf⟩ hh.misses tightness

theorem operand_brackets {inner : Text} {opening closing : Char} (hinner : Balanced inner)
    (h : Brackets opening closing) (tightness : Nat) :
    Operand tightness (opening :: (inner ++ [closing])) := by
  have hblank : isBlank opening = false ∧ isBlank closing = false := by
    rcases h with ⟨rfl, rfl⟩ | ⟨rfl, rfl⟩ | ⟨rfl, rfl⟩ <;> decide
  exact operand_of_hidden (hinner.brackets h) (hinner.hidden_brackets h (Int.le_refl 0))
    ((firm_singleton hblank.1).append inner (firm_singleton hblank.2)) tightness

theorem operand_tome {inner : Text} (hinner : Balanced inner) (tightness : Nat) :
    Operand tightness (tomeText inner) := by
  have hbraces := operand_brackets hinner (.inr (.inr ⟨rfl, rfl⟩)) tightness
  have hplain : ("Tome ".toList.all fun c => !delimits c && c != ',' && !isOperator c) = true := by
    decide
  have hfront : ∀ c ∈ "Tome ".toList, (delimits c = false ∧ (c == ',') = false) ∧
      isOperator c = false := by
    intro c hc
    have hc := List.all_eq_true.1 hplain c hc
    rwa [Bool.and_eq_true, Bool.and_eq_true, Bool.not_eq_true', Bool.not_eq_true', bne,
      Bool.not_eq_true'] at hc
  have hbalanced : Balanced "Tome ".toList := balanced_of_plain fun c hc => (hfront c hc).1.1
  refine Piece.operand ⟨hbalanced.append hbraces.balanced, ?_, ?_⟩ ?_ tightness
  · rw [misses_append, hbalanced.feedAll]
    exact ⟨misses_of_forall fun c hc => (hfront c hc).1.2, hbraces.commas⟩
  · exact (firm_singleton (by decide)).append "ome ".toList hbraces.firm
  · rw [misses_append, hbalanced.feedAll]
    exact ⟨misses_of_forall fun c hc => (hfront c hc).2,
      (hinner.hidden_brackets (.inr (.inr ⟨rfl, rfl⟩)) (Int.le_refl 0)).misses⟩

/-- No operator stands at the top level of an atom. -/
theorem Atom.operand (h : Atom s) (tightness : Nat) : Operand tightness s := by
  cases h with
  | numeral h => exact operand_of_isNumeral h tightness
  | word hne h => exact operand_of_plain hne (fun c hc => isPlain_of_isWord (h c hc)) tightness
  | literal s =>
    exact operand_of_hidden (balanced_literal s) (hidden_literal 0 s) (firm_literal s) tightness
  | sequence h => exact operand_brackets h (.inl ⟨rfl, rfl⟩) tightness
  | group h => exact operand_brackets h (.inr (.inl ⟨rfl, rfl⟩)) tightness
  | tome h => exact operand_tome h tightness

/-- An operand that begins with an atom. If the atom is not all of it, an operator follows. -/
structure Rendering (tightness : Nat) (s : Text) : Prop extends Operand tightness s where
  leads : ∃ atom tail, Atom atom ∧ Joint tail ∧ s = atom ++ tail

theorem Atom.rendering (h : Atom s) (tightness : Nat) : Rendering tightness s :=
  ⟨h.operand tightness, s, [], h, .inl rfl, (List.append_nil s).symm⟩

section Joined

variable {a b : Text} {op : Operator}

/-- Two renderings with an operator between them begin with an atom and an operator. -/
theorem Rendering.exists_joined {tightness : Nat} (h : Rendering tightness a) (op : Operator)
    (b : Text) :
    ∃ atom first more, Atom atom ∧
      joined a op b = atom ++ ' ' :: Operator.toChar first :: ' ' :: more := by
  obtain ⟨atom, tail, hatom, rfl | ⟨first, more, rfl⟩, rfl⟩ := h.leads
  · exact ⟨atom, op, b, hatom, by rw [joined, List.append_nil]⟩
  · exact ⟨atom, first, more ++ ' ' :: op.toChar :: ' ' :: b, hatom, by simp [joined]⟩

theorem Rendering.joined {tightness : Nat} (ha : Rendering op.tightness a)
    (hb : Rendering (op.tightness + 1) b) (h : tightness ≤ op.tightness) :
    Rendering tightness (joined a op b) := by
  obtain ⟨atom, first, more, hatom, hjoined⟩ := ha.exists_joined op b
  exact ⟨ha.toOperand.joined hb.toOperand h, atom, _, hatom, .inr ⟨first, more, rfl⟩, hjoined⟩

end Joined

/-! ## Atoms with operators behind them -/

/-- A text with a character that is in no word is itself no word, numeral or path. -/
theorem unworded_of_mem {c : Char} (hc : c ∈ s) (hword : isWord c = false) (hpoint : c ≠ '.')
    (hminus : c ≠ '-') : (s.isTrueWord = false ∧ s.isFalseWord = false) ∧
      s.isNumeral = false ∧ s.isPath = false := by
  have hlower : ¬ (foldCase c).isLower = true := by
    intro hlower
    rw [isWord_of_isLower_foldCase hlower] at hword
    cases hword
  refine ⟨⟨?_, ?_⟩, ?_, ?_⟩ <;> rw [Bool.eq_false_iff] <;> intro h
  · exact hlower (isLower_of_isTruthWord (.inl h) hc)
  · exact hlower (isLower_of_isTruthWord (.inr h) hc)
  · rcases mem_of_isNumeral h hc with hdigit | hdot | hsign
    · rw [isWord_of_isDigit hdigit] at hword
      cases hword
    · exact hpoint hdot
    · exact hminus hsign
  · rcases mem_of_isPath h hc with hin | hdot
    · rw [hin] at hword
      cases hword
    · exact hpoint hdot

/-- An identifier does not begin with a digit. -/
theorem isDigit_of_isIdentifier_cons {c : Char} (h : isIdentifier (c :: s) = true) :
    isDigit c = false := by
  rw [isIdentifier, Bool.and_eq_true, Bool.or_eq_true, beq_iff_eq] at h
  rcases h.1 with halpha | rfl
  · exact isDigit_of_isAlpha halpha
  · decide

theorem isNumeral_of_isIdentifier (h : s.isIdentifier = true) : s.isNumeral = false := by
  rw [Bool.eq_false_iff]
  intro hnumeral
  obtain ⟨sign, d, body, rfl, hsign, hd, -⟩ := exists_of_isNumeral hnumeral
  rcases hsign with rfl | rfl
  · rw [isDigit_of_isIdentifier_cons h] at hd
    cases hd
  · exact absurd (isWord_of_isIdentifier h List.mem_cons_self) (by decide)

/-- No literal, container, call, path or shape takes a text, and no parentheses wrap it. -/
structure Compound (s : Text) : Prop where
  triple : tripleQuoted? s = none
  quoted : quoted? s = none
  bracket : unwrap? '[' ']' s = none
  paren : unwrap? '(' ')' s = none
  phrase : NoPhrase s

/-- A text that begins with none of the marks of literals and containers. -/
theorem compound_of_head {c : Char} (hmarks : c ∉ ['"', '\'', '[', '(']) (h : NoPhrase (c :: s)) :
    Compound (c :: s) := by
  simp only [List.mem_cons, List.not_mem_nil, or_false, not_or] at hmarks
  obtain ⟨hdouble, hsingle, hbracket, hparen⟩ := hmarks
  obtain ⟨htriple, hquoted⟩ := unquoted_of_head hdouble hsingle s
  exact ⟨htriple, hquoted, unwrap?_of_ne hbracket s, unwrap?_of_ne hparen s, h⟩

theorem not_mem_marks_of_isWord {c : Char} (h : isWord c = true) : c ∉ ['"', '\'', '[', '('] := by
  intro hc
  have hall : (['"', '\'', '[', '('].all fun d => !isWord d) = true := by decide
  have hnot := List.all_eq_true.1 hall c hc
  rw [h] at hnot
  cases hnot

theorem tomeBody?_tome (t : Text) :
    tomeBody? ("Tome ".toList ++ '\x7b' :: t) = unwrap? '\x7b' '\x7d' ('\x7b' :: t) :=
  rfl

theorem noPhrase_of_tome {t : Text} (h : unwrap? '\x7b' '\x7d' ('\x7b' :: t) = none) :
    NoPhrase ("Tome ".toList ++ '\x7b' :: t) where
  tome := (tomeBody?_tome t).trans h
  invoke := Pattern.match?_eq_none (not_mem_ways_of_head (by decide))
  shape :=
    shapeParts?_eq_none (not_mem_ways_of_head (by decide)) (not_mem_ways_of_head (by decide))

/-- Behind an atom an operator keeps the text from having the form of the atom. -/
theorem Atom.compound (h : Atom s) (op : Operator) (t : Text) :
    Compound (s ++ ' ' :: op.toChar :: ' ' :: t) := by
  have hjoint : Joint (' ' :: op.toChar :: ' ' :: t) := .inr ⟨op, t, rfl⟩
  have hne : ' ' :: op.toChar :: ' ' :: t ≠ [] := List.cons_ne_nil _ _
  cases h with
  | numeral h =>
    obtain ⟨sign, d, body, rfl, hsign, hd, -⟩ := exists_of_isNumeral h
    rcases hsign with rfl | rfl
    · exact compound_of_head (not_mem_marks_of_isWord (isWord_of_isDigit hd))
        (noPhrase_of_head (isLower_foldCase_of_isDigit hd) _)
    · exact compound_of_head (by decide) (noPhrase_of_head (by decide) _)
  | word hne h =>
    cases s with
    | nil => exact absurd rfl hne
    | cons c s =>
      exact compound_of_head (not_mem_marks_of_isWord (h c List.mem_cons_self))
        (noPhrase_of_word h hjoint)
  | literal s =>
    exact ⟨tripleQuoted?_literal (by simp), quoted?_literal_append hne,
      unwrap?_of_ne (by decide) _, unwrap?_of_ne (by decide) _, noPhrase_of_head (by decide) _⟩
  | sequence h =>
    obtain ⟨htriple, hquoted⟩ := unquoted_of_head (c := '[') (by decide) (by decide) _
    rw [List.cons_append, List.append_assoc, List.singleton_append]
    exact ⟨htriple, hquoted, h.unwrap?_append (.inl ⟨rfl, rfl⟩) hne, unwrap?_of_ne (by decide) _,
      noPhrase_of_head (by decide) _⟩
  | group h =>
    obtain ⟨htriple, hquoted⟩ := unquoted_of_head (c := '(') (by decide) (by decide) _
    rw [List.cons_append, List.append_assoc, List.singleton_append]
    exact ⟨htriple, hquoted, unwrap?_of_ne (by decide) _,
      h.unwrap?_append (.inr (.inl ⟨rfl, rfl⟩)) hne, noPhrase_of_head (by decide) _⟩
  | tome h =>
    rw [tomeText, List.append_assoc, List.cons_append, List.append_assoc, List.singleton_append]
    exact compound_of_head (by decide)
      (noPhrase_of_tome (h.unwrap?_append (.inr (.inr ⟨rfl, rfl⟩)) hne))

end Text

/-! ## The layers of atoms -/

namespace Layer

open Text

variable {s inner : Text}

theorem of_eq_ofContainer {c : Char} (htriple : tripleQuoted? s = none) (hquoted : quoted? s = none)
    (hc : c ∈ s) (hword : isWord c = false) (hpoint : c ≠ '.') (hminus : c ≠ '-') :
    Layer.of s = ofContainer s := by
  obtain ⟨⟨htrue, hfalse⟩, hnumeral, -⟩ := unworded_of_mem hc hword hpoint hminus
  simp only [of, htriple, hquoted, htrue, hfalse, hnumeral, Bool.false_eq_true, ↓reduceIte]

theorem ofContainer_eq_ofCompound (hbracket : unwrap? '[' ']' s = none)
    (htome : s.tomeBody? = none) : ofContainer s = ofCompound s := by
  simp only [ofContainer, hbracket, htome]

theorem ofCompound_eq_ofOperators (h : NoPhrase s) (hpath : s.isPath = false) :
    ofCompound s = ofOperators s := by
  simp only [ofCompound, h.invoke, h.shape, hpath, Bool.false_eq_true, ↓reduceIte]

theorem of_numeral (h : s.isNumeral = true) : Layer.of s = number s.numeralValue := by
  obtain ⟨sign, d, body, hs, hsign, hd, -⟩ := exists_of_isNumeral h
  have hunquoted : tripleQuoted? s = none ∧ quoted? s = none := by
    have hmarks := not_mem_marks_of_isWord (isWord_of_isDigit hd)
    simp only [List.mem_cons, not_or] at hmarks
    rcases hsign with rfl | rfl
    · rw [hs]
      exact unquoted_of_head hmarks.1 hmarks.2.1 _
    · rw [hs]
      exact unquoted_of_head (by decide) (by decide) _
  have hword : ¬ (s.isTrueWord = true ∨ s.isFalseWord = true) := by
    intro htruth
    have hlower := isLower_of_isTruthWord htruth (c := d) (by rw [hs]; simp)
    rw [isLower_foldCase_of_isDigit hd] at hlower
    cases hlower
  rw [not_or, Bool.not_eq_true, Bool.not_eq_true] at hword
  simp only [of, hunquoted.1, hunquoted.2, hword.1, hword.2, h, Bool.false_eq_true, ↓reduceIte]

/-- A word for a truth value is read as what it says. -/
theorem of_truthWord (h : s.isTrueWord = true ∨ s.isFalseWord = true) :
    Layer.of s = boolean s.isTrueWord := by
  have hunquoted : tripleQuoted? s = none ∧ quoted? s = none := by
    cases s with
    | nil => exact absurd rfl (ne_nil_of_isTruthWord h)
    | cons c s =>
      have hlower := isLower_of_isTruthWord h (c := c) List.mem_cons_self
      have hmarks := not_mem_marks_of_isWord (isWord_of_isLower_foldCase hlower)
      simp only [List.mem_cons, not_or] at hmarks
      exact unquoted_of_head hmarks.1 hmarks.2.1 s
  rcases h with htrue | hfalse
  · simp only [of, hunquoted.1, hunquoted.2, htrue, ↓reduceIte]
  · simp only [of, hunquoted.1, hunquoted.2, isTrueWord_of_isFalseWord hfalse, hfalse,
      Bool.false_eq_true, ↓reduceIte]

theorem of_literal (s : Text) : Layer.of (literal s) = text s := by
  have htriple : tripleQuoted? (literal s) = none := by
    have happend := tripleQuoted?_literal (s := s) (t := []) (by simp)
    rwa [List.append_nil] at happend
  simp only [of, htriple, quoted?_literal, unescape_escape]

/-- An identifier that is no word for a truth value is a path of one part. -/
theorem of_identifier (h : s.isIdentifier = true) (htrue : s.isTrueWord = false)
    (hfalse : s.isFalseWord = false) : Layer.of s = path s [] := by
  have hword : ∀ c ∈ s, isWord c = true := fun c hc => isWord_of_isIdentifier h hc
  cases s with
  | nil => cases h
  | cons c s =>
    have hphrase := noPhrase_of_word hword (.inl rfl)
    rw [List.append_nil] at hphrase
    have hcompound := compound_of_head (not_mem_marks_of_isWord (hword c List.mem_cons_self)) hphrase
    have hpath : isPath (c :: s) = true := by
      rw [isPath, splitOn_identifier h, List.all_cons, h]
      rfl
    have hnumeral := isNumeral_of_isIdentifier h
    simp only [of, hcompound.triple, hcompound.quoted, htrue, hfalse, hnumeral, Bool.false_eq_true,
      ↓reduceIte]
    rw [ofContainer_eq_ofCompound hcompound.bracket hphrase.tome, ofCompound, hphrase.invoke]
    simp only [hpath, ↓reduceIte, ofPath, splitOn_identifier h]

theorem of_sequence (h : Balanced inner) :
    Layer.of ('[' :: (inner ++ [']'])) = sequence (topLevelPieces inner) := by
  obtain ⟨htriple, hquoted⟩ := unquoted_of_head (c := '[') (by decide) (by decide) (inner ++ [']'])
  rw [of_eq_ofContainer htriple hquoted List.mem_cons_self (by decide) (by decide) (by decide)]
  simp only [ofContainer, h.unwrap?]

theorem of_tome (h : Balanced inner) : Layer.of (tomeText inner) = tome (tomePairs inner) := by
  have hunquoted : tripleQuoted? (tomeText inner) = none ∧ quoted? (tomeText inner) = none :=
    unquoted_of_head (c := 'T') (by decide) (by decide) _
  have hbrace : '\x7b' ∈ tomeText inner := by simp [tomeText]
  have hbracket : unwrap? '[' ']' (tomeText inner) = none := unwrap?_of_ne (by decide) _
  have hbody : tomeBody? (tomeText inner) = some inner := (tomeBody?_tome _).trans h.unwrap?
  rw [of_eq_ofContainer hunquoted.1 hunquoted.2 hbrace (by decide) (by decide) (by decide),
    ofContainer, hbracket, hbody]

theorem of_group (h : Balanced inner) : Layer.of ('(' :: (inner ++ [')'])) = group inner := by
  obtain ⟨htriple, hquoted⟩ := unquoted_of_head (c := '(') (by decide) (by decide) (inner ++ [')'])
  have hphrase : NoPhrase ('(' :: (inner ++ [')'])) := noPhrase_of_head (by decide) _
  obtain ⟨-, -, hpath⟩ := unworded_of_mem (c := '(') (s := '(' :: (inner ++ [')']))
    List.mem_cons_self (by decide) (by decide) (by decide)
  rw [of_eq_ofContainer htriple hquoted List.mem_cons_self (by decide) (by decide) (by decide),
    ofContainer_eq_ofCompound (unwrap?_of_ne (by decide) _) hphrase.tome,
    ofCompound_eq_ofOperators hphrase hpath]
  simp only [ofOperators, h.unwrap?]

/-- Renderings with an operator between them are split at that operator. -/
theorem of_joined {a b : Text} {op : Operator} (ha : Rendering op.tightness a)
    (hb : Rendering (op.tightness + 1) b) : Layer.of (joined a op b) = binary a op b := by
  obtain ⟨atom, first, more, hatom, hjoined⟩ := ha.exists_joined op b
  have hcompound := hatom.compound first more
  rw [← hjoined] at hcompound
  have hblank : ' ' ∈ joined a op b := by simp [joined]
  obtain ⟨-, -, hpath⟩ := unworded_of_mem hblank (by decide) (by decide) (by decide)
  rw [of_eq_ofContainer hcompound.triple hcompound.quoted hblank (by decide) (by decide) (by decide),
    ofContainer_eq_ofCompound hcompound.bracket hcompound.phrase.tome,
    ofCompound_eq_ofOperators hcompound.phrase hpath]
  simp only [ofOperators, hcompound.paren, splitBinary?_joined ha.toOperand hb.toOperand]

end Layer

end Grimoire
