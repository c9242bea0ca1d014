import Grimoire.Expr.Layer
import Grimoire.Proofs.Pieces
import Mathlib.Data.List.TakeWhile

/-!
# What the forms of expressions take

The forms are tried in a fixed order, so a text has a form only if no earlier form takes it. Keywords
take letters only; behind a keyword the patterns want blanks and then a letter or a bracket, which an
operator is not. A text that begins with an atom and goes on behind it with an operator is therefore
left to the last form: operators.
-/

namespace Grimoire

/-! ## Ways of patterns -/

theorem foldCase_eq_self {c : Char} (h : (foldCase c).isLower = false) : foldCase c = c := by
  by_cases hs : c = 'ſ'
  · subst hs
    exact absurd h (by decide)
  by_cases hk : c = '\u212a'
  · subst hk
    exact absurd h (by decide)
  rw [foldCase, if_neg hs, if_neg hk] at h ⊢
  by_cases hupper : c.val ≥ 'A'.val ∧ c.val ≤ 'Z'.val
  · have hcode : c.toNat < 128 := Nat.lt_of_le_of_lt hupper.2 (by decide)
    have hall : ∀ n, n < 128 → (Char.ofNat n).toLower.isLower = false →
        (Char.ofNat n).toLower = Char.ofNat n := by
      decide +kernel
    exact forall_ascii (P := fun c => c.toLower.isLower = false → c.toLower = c) hall hcode h
  · exact dif_neg hupper

namespace Scan

variable {letters rest : Text} {s t : Scan}

theorem takeWord_append {taken : Text} (h : taken.map foldCase = letters.map foldCase)
    (place : Nat) (rest : Text) (spans : List (Nat × Span)) :
    takeWord letters ⟨place, taken ++ rest, spans⟩
      = some ⟨place + letters.length, rest, spans⟩ := by
  induction letters generalizing taken place with
  | nil =>
    rw [List.map_nil, List.map_eq_nil_iff] at h
    subst h
    rfl
  | cons letter letters ih =>
    cases taken with
    | nil => cases h
    | cons c taken =>
      rw [List.map_cons, List.map_cons, List.cons.injEq] at h
      rw [List.cons_append, takeWord, if_pos h.1, ih h.2, List.length_cons, Nat.add_assoc,
        Nat.add_comm 1]

theorem exists_of_takeWord (h : s.takeWord letters = some t) :
    ∃ taken, s.rest = taken ++ t.rest ∧ taken.map foldCase = letters.map foldCase := by
  induction letters generalizing s with
  | nil =>
    cases h
    exact ⟨[], rfl, rfl⟩
  | cons letter letters ih =>
    obtain ⟨place, rest, spans⟩ := s
    cases rest with
    | nil => cases h
    | cons c rest =>
      rw [takeWord] at h
      split at h
      · next hc =>
        obtain ⟨taken, hrest, hfold⟩ := ih h
        exact ⟨c :: taken, congrArg (c :: ·) hrest, by rw [List.map_cons, List.map_cons, hc, hfold]⟩
      · cases h

theorem exists_of_alongFrom {set : Charset} {spans : List (Nat × Span)} {place : Nat}
    (h : t ∈ alongFrom set spans place rest) :
    ∃ taken, rest = taken ++ t.rest ∧ ∀ c ∈ taken, set.holds c = true := by
  induction rest generalizing place with
  | nil =>
    rw [alongFrom, List.mem_singleton] at h
    subst h
    exact ⟨[], rfl, by simp⟩
  | cons c rest ih =>
    rw [alongFrom, List.mem_cons] at h
    rcases h with rfl | h
    · exact ⟨[], rfl, by simp⟩
    split at h
    · next hc =>
      obtain ⟨taken, hrest, hall⟩ := ih h
      refine ⟨c :: taken, congrArg (c :: ·) hrest, ?_⟩
      intro d hd
      rcases List.mem_cons.1 hd with rfl | hd
      · exact hc
      · exact hall d hd
    · cases h

/-- At least one character of a class is taken from a text that begins with one. -/
theorem exists_of_alongFrom_drop {set : Charset} {spans : List (Nat × Span)} {place : Nat}
    (h : t ∈ (alongFrom set spans place rest).drop 1) :
    ∃ c taken, rest = c :: (taken ++ t.rest) ∧ ∀ d ∈ c :: taken, set.holds d = true := by
  cases rest with
  | nil => cases h
  | cons c rest =>
    rw [alongFrom, List.drop_one, List.tail_cons] at h
    split at h
    · next hc =>
      obtain ⟨taken, hrest, hall⟩ := exists_of_alongFrom h
      refine ⟨c, taken, congrArg (c :: ·) hrest, ?_⟩
      intro d hd
      rcases List.mem_cons.1 hd with rfl | hd
      · exact hc
      · exact hall d hd
    · cases h

end Scan

namespace Pattern

variable {letters text : Text} {p q : Pattern} {s t : Scan}

theorem mem_ways_andThen : t ∈ (andThen p q).ways s ↔ ∃ u ∈ p.ways s, t ∈ q.ways u := by
  rw [ways, List.mem_flatMap]

theorem mem_ways_word : t ∈ (word letters).ways s ↔ s.takeWord letters = some t := by
  rw [ways, Option.mem_toList]

/-- A gap takes at least one blank. -/
theorem exists_of_gap (h : t ∈ gap.ways s) :
    ∃ c taken, s.rest = c :: (taken ++ t.rest) ∧ ∀ d ∈ c :: taken, isBlank d = true :=
  Scan.exists_of_alongFrom_drop (List.mem_reverse.1 h)

theorem exists_of_space (h : t ∈ space.ways s) :
    ∃ taken, s.rest = taken ++ t.rest ∧ ∀ c ∈ taken, isBlank c = true :=
  Scan.exists_of_alongFrom (List.mem_reverse.1 h)

theorem match?_eq_none (h : ∀ t, t ∉ p.ways (.start text)) : p.match? text = none := by
  rw [match?, List.eq_nil_iff_forall_not_mem.2 h]
  rfl

theorem matchStart?_eq_none (h : ∀ t, t ∉ p.ways (.start text)) : p.matchStart? text = none := by
  rw [matchStart?, List.eq_nil_iff_forall_not_mem.2 h]
  rfl

theorem accepts_word : (word letters).accepts text = true ↔
    text.map foldCase = letters.map foldCase := by
  rw [accepts, match?, Option.isSome_map, ways]
  constructor
  · intro h
    obtain ⟨t, ht, hend⟩ := List.find?_isSome.1 h
    rw [Option.mem_toList] at ht
    obtain ⟨taken, hrest, hfold⟩ := Scan.exists_of_takeWord ht
    rw [List.isEmpty_iff.1 hend, List.append_nil] at hrest
    rwa [← hrest] at hfold
  · intro h
    have htake := Scan.takeWord_append h 0 [] []
    rw [List.append_nil] at htake
    rw [Scan.start, htake]
    rfl

theorem accepts_orElse : (orElse p q).accepts text = (p.accepts text || q.accepts text) := by
  simp only [accepts, match?, Option.isSome_map, ways, List.find?_append, Option.isSome_or]

end Pattern

/-! ## Words and numerals -/

namespace Text

open Nesting

variable {s : Text}

theorem isTrueWord_iff : s.isTrueWord = true ↔
    s.map foldCase = "truth".toList ∨ s.map foldCase = "true".toList := by
  rw [isTrueWord, truePattern, Pattern.accepts_orElse, Bool.or_eq_true, Pattern.keyword,
    Pattern.keyword, Pattern.accepts_word, Pattern.accepts_word]
  rfl

theorem isFalseWord_iff : s.isFalseWord = true ↔
    s.map foldCase = "lie".toList ∨ s.map foldCase = "false".toList := by
  rw [isFalseWord, falsePattern, Pattern.accepts_orElse, Bool.or_eq_true, Pattern.keyword,
    Pattern.keyword, Pattern.accepts_word, Pattern.accepts_word]
  rfl

theorem isTrueWord_of_isFalseWord (h : s.isFalseWord = true) : s.isTrueWord = false := by
  rw [Bool.eq_false_iff]
  intro htrue
  rcases isFalseWord_iff.1 h with hfold | hfold <;>
    rcases isTrueWord_iff.1 htrue with hfold' | hfold' <;>
    exact absurd (hfold.symm.trans hfold') (by decide)

/-- Words for truth values consist of letters. -/
theorem isLower_of_isTruthWord (h : s.isTrueWord = true ∨ s.isFalseWord = true) {c : Char}
    (hc : c ∈ s) : (foldCase c).isLower = true := by
  have hmem : foldCase c ∈ s.map foldCase := List.mem_map_of_mem hc
  have hwords : (["truth", "true", "lie", "false"].all fun w => w.toList.all Char.isLower) = true := by
    decide
  have hletters : ∀ w ∈ ["truth", "true", "lie", "false"], s.map foldCase = w.toList →
      (foldCase c).isLower = true := by
    intro w hw hfold
    exact List.all_eq_true.1 (List.all_eq_true.1 hwords w hw) _ (hfold ▸ hmem)
  rcases h with h | h
  · rcases isTrueWord_iff.1 h with hfold | hfold
    · exact hletters "truth" (by decide) hfold
    · exact hletters "true" (by decide) hfold
  · rcases isFalseWord_iff.1 h with hfold | hfold
    · exact hletters "lie" (by decide) hfold
    · exact hletters "false" (by decide) hfold

theorem ne_nil_of_isTruthWord (h : s.isTrueWord = true ∨ s.isFalseWord = true) : s ≠ [] := by
  rintro rfl
  exact absurd h (by decide)

/-- Digits, and perhaps a point and more digits. -/
theorem exists_of_digits {body : Text} (hwhole : (body.takeWhile isDigit).isEmpty = false)
    (hfraction : ∀ c ∈ body.dropWhile isDigit, isDigit c = true ∨ c = '.') :
    ∃ d rest, body = d :: rest ∧ isDigit d = true ∧ ∀ c ∈ rest, isDigit c = true ∨ c = '.' := by
  cases body with
  | nil => cases hwhole
  | cons d rest =>
    have hd : isDigit d = true := by
      by_contra hd
      rw [List.takeWhile_cons_of_neg hd] at hwhole
      cases hwhole
    refine ⟨d, rest, rfl, hd, fun c hc => ?_⟩
    rw [List.dropWhile_cons_of_pos hd] at hfraction
    rw [← List.takeWhile_append_dropWhile (p := isDigit) (l := rest), List.mem_append] at hc
    rcases hc with hc | hc
    · exact .inl (List.mem_takeWhile_imp hc)
    · exact hfraction c hc

/-- A numeral is a digit with digits and points behind it, and perhaps a minus before it. -/
theorem exists_of_isNumeral (h : s.isNumeral = true) : ∃ sign d body, s = sign ++ d :: body ∧
    (sign = [] ∨ sign = ['-']) ∧ isDigit d = true ∧ ∀ c ∈ body, isDigit c = true ∨ c = '.' := by
  rw [isNumeral, Bool.and_eq_true, Bool.not_eq_true'] at h
  obtain ⟨hwhole, hfraction⟩ := h
  have hpoints : ∀ c ∈ ((dropFirst? '-' s).getD s).dropWhile isDigit, isDigit c = true ∨ c = '.' := by
    intro c hc
    split at hfraction
    · next hnil =>
      rw [hnil] at hc
      cases hc
    · next d fraction hcons =>
      rw [Bool.and_eq_true, Bool.and_eq_true, beq_iff_eq] at hfraction
      rw [hcons, List.mem_cons] at hc
      rcases hc with rfl | hc
      · exact .inr hfraction.1.1
      · exact .inl (List.all_eq_true.1 hfraction.2 c hc)
  obtain ⟨d, rest, hbody, hd, hall⟩ := exists_of_digits hwhole hpoints
  cases s with
  | nil => cases hbody
  | cons c t =>
    rw [dropFirst?] at hbody
    split at hbody
    · next hc =>
      rw [Option.getD_some] at hbody
      exact ⟨['-'], d, rest, by rw [hc, hbody]; rfl, .inr rfl, hd, hall⟩
    · exact ⟨[], d, rest, hbody, .inl rfl, hd, hall⟩

theorem mem_of_isNumeral (h : s.isNumeral = true) {c : Char} (hc : c ∈ s) :
    isDigit c = true ∨ c = '.' ∨ c = '-' := by
  obtain ⟨sign, d, body, rfl, hsign, hd, hbody⟩ := exists_of_isNumeral h
  rcases List.mem_append.1 hc with hc | hc
  · rcases hsign with rfl | rfl
    · cases hc
    · exact .inr (.inr (List.mem_singleton.1 hc))
  rcases List.mem_cons.1 hc with rfl | hc
  · exact .inl hd
  · rcases hbody c hc with hc | hc
    · exact .inl hc
    · exact .inr (.inl hc)

/-! ## Paths -/

theorem exists_of_mem_splitOn {sep c : Char} (hc : c ∈ s) (hne : c ≠ sep) :
    ∃ piece ∈ splitOn sep s, c ∈ piece := by
  induction s with
  | nil => cases hc
  | cons d s ih =>
    rw [splitOn_cons]
    obtain ⟨more, hmore, -⟩ := exists_splitOn_eq sep s
    by_cases hd : d = sep
    · have hcs : c ∈ s := (List.mem_cons.1 hc).resolve_left fun hcd => hne (hcd.trans hd)
      obtain ⟨piece, hpiece, hin⟩ := ih hcs
      rw [if_pos hd]
      exact ⟨piece, List.mem_cons_of_mem _ hpiece, hin⟩
    · rw [if_neg hd, hmore]
      rw [hmore] at ih
      rcases List.mem_cons.1 hc with rfl | hc
      · exact ⟨_, List.mem_cons_self, List.mem_cons_self⟩
      · obtain ⟨piece, hpiece, hin⟩ := ih hc
        rcases List.mem_cons.1 hpiece with rfl | hpiece
        · exact ⟨_, List.mem_cons_self, List.mem_cons_of_mem d hin⟩
        · exact ⟨piece, List.mem_cons_of_mem _ hpiece, hin⟩

theorem isWord_of_isIdentifier (h : s.isIdentifier = true) {c : Char} (hc : c ∈ s) :
    isWord c = true := by
  cases s with
  | nil => cases hc
  | cons d s =>
    rw [isIdentifier, Bool.and_eq_true, Bool.or_eq_true, beq_iff_eq] at h
    rcases List.mem_cons.1 hc with rfl | hc
    · rcases h.1 with halpha | rfl
      · exact isWord_of_isAlpha halpha
      · decide
    · exact List.all_eq_true.1 h.2 c hc

/-- Paths consist of word characters and points. -/
theorem mem_of_isPath (h : s.isPath = true) {c : Char} (hc : c ∈ s) : isWord c = true ∨ c = '.' := by
  by_cases hpoint : c = '.'
  · exact .inr hpoint
  obtain ⟨piece, hpiece, hin⟩ := exists_of_mem_splitOn hc hpoint
  exact .inl (isWord_of_isIdentifier (List.all_eq_true.1 h piece hpiece) hin)

theorem splitOn_append_cons {sep : Char} {a b : Text} (ha : ∀ c ∈ a, c ≠ sep) :
    splitOn sep (a ++ sep :: b) = a :: splitOn sep b := by
  induction a with
  | nil => rw [List.nil_append, splitOn_cons, if_pos rfl]
  | cons c a ih =>
    obtain ⟨hc, ha⟩ := List.forall_mem_cons.1 ha
    rw [List.cons_append, splitOn_cons, if_neg hc, ih ha]

theorem splitOn_eq_singleton {sep : Char} (h : ∀ c ∈ s, c ≠ sep) : splitOn sep s = [s] := by
  induction s with
  | nil => rfl
  | cons c s ih =>
    obtain ⟨hc, hs⟩ := List.forall_mem_cons.1 h
    rw [splitOn_cons, if_neg hc, ih hs]

/-- An identifier is a path of one part. -/
theorem splitOn_identifier (h : s.isIdentifier = true) : splitOn '.' s = [s] := by
  apply splitOn_eq_singleton
  rintro c hc rfl
  exact absurd (isWord_of_isIdentifier h hc) (by decide)

/-! ## Phrases -/

/-- No keyword of an expression takes a text. -/
structure NoPhrase (s : Text) : Prop where
  tome : s.tomeBody? = none
  invoke : invokePattern.match? s = none
  shape : s.shapeParts? = none

theorem shapeParts?_eq_none (hlist : ∀ t, t ∉ shapeListPattern.ways (.start s))
    (hsingle : ∀ t, t ∉ shapeSinglePattern.ways (.start s)) : s.shapeParts? = none := by
  rw [shapeParts?, Pattern.match?_eq_none hlist, Pattern.match?_eq_none hsingle]
  rfl

theorem noPhrase_of_ways (htome : ∀ t, t ∉ tomePattern.ways (.start s))
    (hinvoke : ∀ t, t ∉ invokePattern.ways (.start s))
    (hlist : ∀ t, t ∉ shapeListPattern.ways (.start s))
    (hsingle : ∀ t, t ∉ shapeSinglePattern.ways (.start s)) : NoPhrase s where
  tome := by
    rw [tomeBody?, Pattern.matchStart?_eq_none htome]
    rfl
  invoke := Pattern.match?_eq_none hinvoke
  shape := shapeParts?_eq_none hlist hsingle

/-- A pattern that begins with a keyword takes nothing from a text that begins otherwise. -/
theorem not_mem_ways_of_head {letter c : Char} {letters : Text} {p : Pattern}
    (h : foldCase c ≠ foldCase letter) (t : Scan) :
    t ∉ (Pattern.andThen (.word (letter :: letters)) p).ways (.start (c :: s)) := by
  intro ht
  obtain ⟨u, hu, -⟩ := Pattern.mem_ways_andThen.1 ht
  have htake : Scan.takeWord (letter :: letters) (.start (c :: s)) = none := if_neg h
  rw [Pattern.mem_ways_word, htake] at hu
  cases hu

theorem noPhrase_of_head {c : Char} (h : (foldCase c).isLower = false) (s : Text) :
    NoPhrase (c :: s) := by
  have hne : ∀ letter, (foldCase letter).isLower = true → foldCase c ≠ foldCase letter := by
    intro letter hletter heq
    rw [heq, hletter] at h
    cases h
  exact noPhrase_of_ways (not_mem_ways_of_head (hne 't' (by decide)))
    (not_mem_ways_of_head (hne 'i' (by decide))) (not_mem_ways_of_head (hne 'S' (by decide)))
    (not_mem_ways_of_head (hne 'S' (by decide)))

/-- What may follow an atom: nothing, or an operator between blanks. -/
def Joint (tail : Text) : Prop :=
  tail = [] ∨ ∃ op more, tail = ' ' :: Operator.toChar op :: ' ' :: more

section Words

variable {w tail : Text} {u t : Scan}

/-- A keyword takes a part of a word and nothing behind the word. -/
theorem exists_of_takeWord_word {letters : Text}
    (hletters : ∀ l ∈ letters, (foldCase l).isLower = true) (htail : Joint tail)
    (hrest : u.rest = w ++ tail) (h : u.takeWord letters = some t) :
    ∃ left, t.rest = left ++ tail ∧ left <:+ w := by
  obtain ⟨taken, htaken, hfold⟩ := Scan.exists_of_takeWord h
  have hlower : ∀ c ∈ taken, (foldCase c).isLower = true := by
    intro c hc
    have hmem : foldCase c ∈ letters.map foldCase := hfold ▸ List.mem_map_of_mem hc
    obtain ⟨l, hl, heq⟩ := List.mem_map.1 hmem
    exact heq ▸ hletters l hl
  rcases List.append_eq_append_iff.1 (hrest.symm.trans htaken) with ⟨more, htake, hmore⟩ | hword
  · cases more with
    | nil => exact ⟨[], hmore.symm, List.nil_suffix⟩
    | cons c more =>
      -- the word ends inside the keyword, but behind the word there is no letter
      have hc := hlower c (by rw [htake]; simp)
      rcases htail with rfl | ⟨op, rest, rfl⟩
      · cases hmore
      · rw [List.cons_append, List.cons.injEq] at hmore
        rw [← hmore.1] at hc
        exact absurd hc (by decide)
  · obtain ⟨left, hleft, hmore⟩ := hword
    exact ⟨left, hmore, taken, hleft.symm⟩

theorem isBlank_toChar (op : Operator) : isBlank op.toChar = false := by
  cases op <;> decide

/-- Blanks behind a part of a word are the one before an operator. -/
theorem exists_of_blanks {c : Char} {taken rest : Text} (hw : ∀ c ∈ w, isWord c = true)
    (htail : Joint tail) (h : w ++ tail = c :: (taken ++ rest))
    (hblank : ∀ d ∈ c :: taken, isBlank d = true) : ∃ op more, rest = Operator.toChar op :: more := by
  have hc := hblank c List.mem_cons_self
  cases w with
  | cons d w =>
    rw [List.cons_append, List.cons.injEq] at h
    have hd := isBlank_of_isPlain (isPlain_of_isWord (hw d List.mem_cons_self))
    rw [h.1, hc] at hd
    cases hd
  | nil =>
    rcases htail with rfl | ⟨op, more, rfl⟩
    · cases h
    · rw [List.nil_append, List.cons.injEq] at h
      cases taken with
      | nil => exact ⟨op, _, h.2.symm⟩
      | cons d taken =>
        rw [List.cons_append, List.cons.injEq] at h
        have hd := hblank d (List.mem_cons_of_mem c List.mem_cons_self)
        rw [← h.2.1, isBlank_toChar] at hd
        cases hd

/-- A bracket stands neither at the end of a word nor behind the blank that follows it. -/
theorem head_ne_of_space {c : Char} {rest : Text} (hc : c = '\x7b' ∨ c = '(')
    (hw : ∀ c ∈ w, isWord c = true) (htail : Joint tail) (hrest : u.rest = w ++ tail)
    (h : t ∈ Pattern.space.ways u) (ht : t.rest = c :: rest) : False := by
  have hword : isWord c = false := by rcases hc with rfl | rfl <;> decide
  have hspace : c ≠ ' ' := by rcases hc with rfl | rfl <;> decide
  obtain ⟨taken, htaken, hblank⟩ := Pattern.exists_of_space h
  rw [hrest, ht] at htaken
  cases taken with
  | nil =>
    cases w with
    | cons d w =>
      rw [List.cons_append, List.nil_append, List.cons.injEq] at htaken
      rw [← htaken.1, hw d List.mem_cons_self] at hword
      cases hword
    | nil =>
      rcases htail with rfl | ⟨op, more, rfl⟩
      · cases htaken
      · rw [List.nil_append, List.nil_append, List.cons.injEq] at htaken
        exact hspace htaken.1.symm
  | cons d taken =>
    obtain ⟨op, more, hop⟩ := exists_of_blanks hw htail htaken hblank
    rw [List.cons.injEq] at hop
    have hall : ∀ op : Operator, op.toChar ≠ '\x7b' ∧ op.toChar ≠ '(' := by
      intro op
      cases op <;> decide
    rcases hc with rfl | rfl
    · exact (hall op).1 hop.1.symm
    · exact (hall op).2 hop.1.symm

/-- Brackets are compared as they are. -/
theorem eq_of_foldCase_eq {c bracket : Char} (hb : (foldCase bracket).isLower = false)
    (h : foldCase c = foldCase bracket) : c = bracket := by
  rw [← foldCase_eq_self hb, ← h, foldCase_eq_self (h ▸ hb)]

/-- What has no letters is written in one way only. -/
theorem eq_of_map_foldCase_eq {s key : Text} (hkey : ∀ c ∈ key, (foldCase c).isLower = false)
    (h : s.map foldCase = key.map foldCase) : s = key := by
  induction key generalizing s with
  | nil => exact List.map_eq_nil_iff.1 h
  | cons c key ih =>
    obtain ⟨d, t, rfl, hd, ht⟩ := List.map_eq_cons_iff.1 h
    obtain ⟨hc, hkey⟩ := List.forall_mem_cons.1 hkey
    rw [eq_of_foldCase_eq hc hd, ih hkey ht]

/-- Whether a keyword consists of letters. -/
def isLettered (letters : Text) : Bool :=
  letters.all fun l => (foldCase l).isLower

variable {letters : Text} {p : Pattern}

/-- What a keyword leaves of a word with what follows. -/
theorem exists_of_keyword (hletters : letters.isLettered = true) (hw : ∀ c ∈ w, isWord c = true)
    (htail : Joint tail) (h : u ∈ (Pattern.word letters).ways (.start (w ++ tail))) :
    ∃ left, u.rest = left ++ tail ∧ ∀ c ∈ left, isWord c = true := by
  obtain ⟨left, hleft, hsuffix⟩ := exists_of_takeWord_word (List.all_eq_true.1 hletters) htail rfl
    (Pattern.mem_ways_word.1 h)
  exact ⟨left, hleft, fun c hc => hw c (hsuffix.mem hc)⟩

/-- A keyword with a bracket behind it takes nothing from a word. -/
theorem not_mem_ways_bracket {c : Char} (hletters : letters.isLettered = true)
    (hc : c = '\x7b' ∨ c = '(') (hp : ∀ s t, t ∈ p.ways s → ∃ u, s.takeWord [c] = some u)
    (hw : ∀ c ∈ w, isWord c = true) (htail : Joint tail) (t : Scan) :
    t ∉ (Pattern.andThen (.word letters) (.andThen .space p)).ways (.start (w ++ tail)) := by
  intro ht
  obtain ⟨u, hu, ht⟩ := Pattern.mem_ways_andThen.1 ht
  obtain ⟨v, hv, ht⟩ := Pattern.mem_ways_andThen.1 ht
  obtain ⟨left, hleft, hall⟩ := exists_of_keyword hletters hw htail hu
  obtain ⟨x, hx⟩ := hp v t ht
  obtain ⟨taken, htaken, hfold⟩ := Scan.exists_of_takeWord hx
  cases taken with
  | nil => cases hfold
  | cons d taken =>
    rw [List.map_cons, List.map_singleton, List.cons.injEq] at hfold
    have hbracket : (foldCase c).isLower = false := by rcases hc with rfl | rfl <;> decide
    rw [eq_of_foldCase_eq hbracket hfold.1, List.cons_append] at htaken
    exact head_ne_of_space hc hall htail hleft hv htaken

/-- A keyword with a gap and no operator behind it takes nothing from a word. -/
theorem not_mem_ways_gap (hletters : letters.isLettered = true)
    (hp : ∀ s t op more, s.rest = Operator.toChar op :: more → t ∉ p.ways s)
    (hw : ∀ c ∈ w, isWord c = true) (htail : Joint tail) (t : Scan) :
    t ∉ (Pattern.andThen (.word letters) (.andThen .gap p)).ways (.start (w ++ tail)) := by
  intro ht
  obtain ⟨u, hu, ht⟩ := Pattern.mem_ways_andThen.1 ht
  obtain ⟨v, hv, ht⟩ := Pattern.mem_ways_andThen.1 ht
  obtain ⟨left, hleft, hall⟩ := exists_of_keyword hletters hw htail hu
  obtain ⟨c, taken, htaken, hblank⟩ := Pattern.exists_of_gap hv
  rw [hleft] at htaken
  obtain ⟨op, more, hop⟩ := exists_of_blanks hall htail htaken hblank
  exact hp v t op more hop ht

/-- Neither a word nor a word with an operator behind it is a phrase. -/
theorem noPhrase_of_word (hw : ∀ c ∈ w, isWord c = true) (htail : Joint tail) :
    NoPhrase (w ++ tail) := by
  have hops : ∀ op : Operator, isWord op.toChar = false ∧
      Charset.initial.holds op.toChar = false := by
    intro op
    cases op <;> decide
  refine noPhrase_of_ways (not_mem_ways_bracket (by decide) (.inl rfl) ?_ hw htail)
    (not_mem_ways_gap (by decide) ?_ hw htail)
    (not_mem_ways_bracket (by decide) (.inr rfl) ?_ hw htail)
    (not_mem_ways_gap (by decide) ?_ hw htail)
  · intro s t ht
    exact ⟨t, Pattern.mem_ways_word.1 ht⟩
  · intro s t op more hrest ht
    obtain ⟨u, hu, -⟩ := Pattern.mem_ways_andThen.1 ht
    obtain ⟨v, hv, -⟩ := List.mem_map.1 hu
    obtain ⟨c, taken, htaken, hall⟩ := Scan.exists_of_alongFrom_drop (List.mem_reverse.1 hv)
    rw [hrest, List.cons.injEq] at htaken
    have hc : isWord c = true := hall c List.mem_cons_self
    rw [← htaken.1, (hops op).1] at hc
    cases hc
  · intro s t ht
    obtain ⟨u, hu, -⟩ := Pattern.mem_ways_andThen.1 ht
    exact ⟨u, Pattern.mem_ways_word.1 hu⟩
  · intro s t op more hrest ht
    obtain ⟨u, hu, -⟩ := Pattern.mem_ways_andThen.1 ht
    obtain ⟨v, hv, -⟩ := List.mem_map.1 hu
    obtain ⟨x, hx, -⟩ := Pattern.mem_ways_andThen.1 hv
    obtain ⟨place, rest, spans⟩ := s
    cases hrest
    have htake : Scan.takeOne .initial ⟨place, op.toChar :: more, spans⟩ = none := by
      rw [Scan.takeOne, (hops op).2]
      rfl
    rw [Pattern.ways, htake] at hx
    cases hx

end Words

/-! ## String literals -/

/-- Three quotes in a row begin no text but a long string. -/
theorem tripleQuoted?_eq_none (hdouble : startsWith "\"\"\"".toList s = false)
    (hsingle : startsWith "'''".toList s = false) : tripleQuoted? s = none := by
  rw [tripleQuoted?, if_neg]
  rintro ⟨-, hany⟩
  rw [List.any_cons, List.any_cons, hdouble, hsingle] at hany
  cases hany

theorem unquoted_of_head {c : Char} (hdouble : c ≠ '"') (hsingle : c ≠ '\'') (s : Text) :
    tripleQuoted? (c :: s) = none ∧ quoted? (c :: s) = none := by
  constructor
  · refine tripleQuoted?_eq_none ?_ ?_
    · simp [startsWith, List.isPrefixOf, hdouble.symm]
    · simp [startsWith, List.isPrefixOf, hsingle.symm]
  · rw [quoted?, dropFirst?, if_neg hdouble]
    rfl

theorem tripleQuoted?_literal {t : Text} (ht : t.head? ≠ some '"') :
    tripleQuoted? (literal s ++ t) = none := by
  refine tripleQuoted?_eq_none ?_ rfl
  cases s with
  | nil =>
    cases t with
    | nil => rfl
    | cons c t =>
      have hc : c ≠ '"' := by simpa using ht
      simp [startsWith, literal, escape, List.isPrefixOf, hc.symm]
  | cons c s =>
    rw [literal, escape, List.flatMap_cons, written]
    split
    · rfl
    · next hc =>
      have hc : c ≠ '"' := fun heq => hc (.inl heq)
      simp [startsWith, List.isPrefixOf, hc.symm]

theorem escapesClosed_cons {c : Char} (hquote : c ≠ '"') (hbackslash : c ≠ '\\') (t : Text) :
    escapesClosed (c :: t) = escapesClosed t := by
  rw [escapesClosed]
  · simp [hquote, hbackslash]
  · intro d rest hd
    exact absurd hd hbackslash

theorem escapesClosed_written (c : Char) (t : Text) :
    escapesClosed (written c ++ t) = escapesClosed t := by
  unfold written
  split
  · rfl
  · next hc =>
    rw [not_or] at hc
    exact escapesClosed_cons hc.1 hc.2 t

theorem escapesClosed_escape (s t : Text) :
    escapesClosed (escape s ++ t) = escapesClosed t := by
  induction s with
  | nil => rfl
  | cons c s ih =>
    rw [escape, List.flatMap_cons, List.append_assoc, escapesClosed_written]
    exact ih

theorem quoted?_literal (s : Text) : quoted? (literal s) = some (escape s) := by
  have hclosed : escapesClosed (escape s) = true := by
    have hescape := escapesClosed_escape s []
    rwa [List.append_nil] at hescape
  simp [quoted?, literal, dropFirst?, dropLast?, hclosed]

/-- Behind a literal the text goes on, so the literal is not all of it. -/
theorem quoted?_literal_append {t : Text} (ht : t ≠ []) : quoted? (literal s ++ t) = none := by
  rw [literal, List.cons_append, quoted?, dropFirst?, if_pos rfl, List.append_assoc]
  simp only [Option.bind_eq_bind, Option.bind_some, List.singleton_append]
  cases hinner : dropLast? '"' (escape s ++ '"' :: t) with
  | none => rfl
  | some inner =>
    obtain ⟨front, rfl⟩ := exists_of_dropLast?_append ht hinner
    -- the quote that ends the literal is inside, and no backslash stands before it
    rw [Option.bind_some, escapesClosed_escape]
    rfl

theorem unescape_cons {c : Char} (hbackslash : c ≠ '\\') (t : Text) :
    unescape (c :: t) = c :: unescape t := by
  rw [unescape]
  · intro a b c' d rest hd
    exact absurd hd hbackslash
  · intro d rest hd
    exact absurd hd hbackslash

theorem unescape_written (c : Char) (t : Text) : unescape (written c ++ t) = c :: unescape t := by
  unfold written
  split
  · next hc => rcases hc with rfl | rfl <;> simp [unescape, shortEscape?]
  · next hc =>
    rw [not_or] at hc
    exact unescape_cons hc.2 t

/-- A literal denotes the text that it was made from. -/
theorem unescape_escape (s : Text) : unescape (escape s) = s := by
  induction s with
  | nil => rfl
  | cons c s ih =>
    rw [escape, List.flatMap_cons, unescape_written]
    exact congrArg (c :: ·) ih

end Text

end Grimoire
