import Grimoire.Expr.Layer
import Grimoire.Proofs.Brackets
import Grimoire.Proofs.Characters

/-!
# Pieces between commas and operators

A piece is a balanced text without commas at the top level and without blanks at its ends. Pieces
that are joined by commas are split again into the same pieces, and the entries of a tome into
their keys and values. An operand is a piece in which only operators of a certain tightness stand
at the top level; when operands are joined by an operator, the split is at that operator.
-/

namespace Grimoire

namespace Text

open Nesting

variable {s t : Text}

/-! ## Ends without blanks -/

/-- A text that is not empty and has no blank at either end. -/
structure Firm (s : Text) : Prop where
  first : ∃ c ∈ s.head?, isBlank c = false
  last : ∃ c ∈ s.getLast?, isBlank c = false

theorem Firm.ne_nil (h : Firm s) : s ≠ [] := by
  rintro rfl
  obtain ⟨c, hc, -⟩ := h.first
  cases hc

/-- A firm text begins a text with a character that is not blank, whatever stands behind. -/
theorem Firm.head_append (h : Firm s) (t : Text) : ∃ c ∈ (s ++ t).head?, isBlank c = false := by
  obtain ⟨c, hc, hblank⟩ := h.first
  exact ⟨c, by simp [List.head?_append, Option.mem_def.1 hc], hblank⟩

/-- What stands between the ends does not matter. -/
theorem Firm.append (hs : Firm s) (middle : Text) (ht : Firm t) : Firm (s ++ (middle ++ t)) where
  first := hs.head_append _
  last := by
    obtain ⟨c, hc, hblank⟩ := ht.last
    exact ⟨c, by simp [List.getLast?_append, Option.mem_def.1 hc], hblank⟩

theorem firm_singleton {c : Char} (h : isBlank c = false) : Firm [c] :=
  ⟨⟨c, rfl, h⟩, ⟨c, rfl, h⟩⟩

theorem firm_of_forall (hne : s ≠ []) (h : ∀ c ∈ s, isBlank c = false) : Firm s where
  first := ⟨s.head hne, List.head?_eq_some_head hne, h _ (List.head_mem hne)⟩
  last := ⟨s.getLast hne, List.getLast?_eq_some_getLast hne, h _ (List.getLast_mem hne)⟩

theorem dropWhile_isBlank_append {blanks : Text} (hblanks : ∀ c ∈ blanks, isBlank c = true)
    (h : ∃ c ∈ s.head?, isBlank c = false) : (blanks ++ s).dropWhile isBlank = s := by
  obtain ⟨c, hc, hblank⟩ := h
  obtain ⟨rest, rfl⟩ := List.head?_eq_some_iff.1 hc
  rw [List.dropWhile_append_of_pos hblanks, List.dropWhile_cons_of_neg (by simp [hblank])]

theorem isBlank_of_mem_nil : ∀ c ∈ ([] : Text), isBlank c = true := by
  simp

theorem isBlank_of_mem_space : ∀ c ∈ [' '], isBlank c = true := by
  simp only [List.mem_singleton, forall_eq]
  decide

/-- Trimming takes off the blanks around a firm text and nothing else. -/
theorem Firm.trim (h : Firm s) {before after : Text} (hbefore : ∀ c ∈ before, isBlank c = true)
    (hafter : ∀ c ∈ after, isBlank c = true) : Text.trim (before ++ (s ++ after)) = s := by
  have hlast : ∃ c ∈ s.reverse.head?, isBlank c = false := by
    obtain ⟨c, hc, hblank⟩ := h.last
    exact ⟨c, by rwa [List.head?_reverse], hblank⟩
  have hafter' : ∀ c ∈ after.reverse, isBlank c = true := by
    intro c hc
    exact hafter c (List.mem_reverse.1 hc)
  rw [Text.trim, trimStart, dropWhile_isBlank_append hbefore (h.head_append after), trimEnd, List.reverse_append,
    dropWhile_isBlank_append hafter' hlast, List.reverse_reverse]

theorem Firm.trim_self (h : Firm s) : Text.trim s = s := by
  have htrim := h.trim isBlank_of_mem_nil isBlank_of_mem_nil
  rwa [List.nil_append, List.append_nil] at htrim

theorem Firm.trimEnd_self (h : Firm s) : Text.trimEnd s = s := by
  have hlast : ∃ c ∈ s.reverse.head?, isBlank c = false := by
    rw [List.head?_reverse]
    exact h.last
  have hdrop := dropWhile_isBlank_append isBlank_of_mem_nil hlast
  rw [List.nil_append] at hdrop
  rw [Text.trimEnd, hdrop, List.reverse_reverse]

/-! ## Pieces -/

/-- A text that can stand between commas. -/
structure Piece (s : Text) : Prop where
  balanced : Balanced s
  commas : Misses (· == ',') {} s
  firm : Firm s

theorem misses_of_forall {kind : Char → Bool} {n : Nesting} (h : ∀ c ∈ s, kind c = false) :
    Misses kind n s := by
  induction s generalizing n with
  | nil => trivial
  | cons c s ih =>
    exact ⟨fun _ => h c List.mem_cons_self, ih fun d hd => h d (List.mem_cons_of_mem c hd)⟩

theorem delimits_of_isBlank {c : Char} (h : isBlank c = true) : delimits c = false := by
  rw [Bool.eq_false_iff]
  intro hdelimits
  rw [delimits, decide_eq_true_eq] at hdelimits
  have hall : (['"', '\'', '[', '\x7b', '(', ']', '\x7d', ')'].all fun d => !isBlank d) = true := by
    decide
  have hblank := List.all_eq_true.1 hall c hdelimits
  rw [h] at hblank
  cases hblank

variable {texts : List Text}

/-- The pieces of a list that is joined by commas, with blanks around it. -/
theorem trim_rawPieces_join {before after : Text} (hbefore : ∀ c ∈ before, isBlank c = true)
    (hafter : ∀ c ∈ after, isBlank c = true) (h : ∀ s ∈ texts, Piece s) (hne : texts ≠ []) :
    (rawPieces {} (before ++ (join [',', ' '] texts ++ after))).map trim = texts := by
  have hcomma : ∀ {blanks : Text}, (∀ c ∈ blanks, isBlank c = true) →
      Misses (· == ',') {} blanks := by
    refine fun hblanks => misses_of_forall fun c hc => ?_
    rw [beq_eq_false_iff_ne]
    rintro rfl
    exact absurd (hblanks ',' hc) (by decide)
  have hscan : ∀ {blanks : Text}, (∀ c ∈ blanks, isBlank c = true) →
      Nesting.feedAll {} blanks = {} := fun hblanks =>
    (balanced_of_plain fun c hc => delimits_of_isBlank (hblanks c hc)).feedAll
  induction texts generalizing before with
  | nil => exact absurd rfl hne
  | cons s more ih =>
    have hs : Piece s := h s List.mem_cons_self
    have hfront : Misses (· == ',') {} (before ++ s) := by
      rw [misses_append, hscan hbefore]
      exact ⟨hcomma hbefore, hs.commas⟩
    have hback : Nesting.feedAll {} (before ++ s) = {} := by
      rw [feedAll_append, hscan hbefore, hs.balanced.feedAll]
    cases more with
    | nil =>
      have hend : rawPieces (Nesting.feedAll {} (before ++ s ++ after)) [] = [[]] := rfl
      have hall : Misses (· == ',') {} (before ++ s ++ after) := by
        rw [misses_append, hback]
        exact ⟨hfront, hcomma hafter⟩
      have hpieces := rawPieces_append hall hend
      rw [List.append_nil, List.append_assoc] at hpieces
      rw [join, List.intercalate_singleton, hpieces, List.map_singleton,
        hs.firm.trim hbefore hafter]
    | cons t more =>
      have hrest := ih isBlank_of_mem_space
        (fun u hu => h u (List.mem_cons_of_mem s hu)) (List.cons_ne_nil t more)
      have hsplit : before ++ (join [',', ' '] (s :: t :: more) ++ after)
          = (before ++ s) ++ ',' :: ([' '] ++ (join [',', ' '] (t :: more) ++ after)) := by
        simp only [join, List.intercalate_cons_cons, List.append_assoc, List.cons_append,
          List.nil_append]
      have hcut : rawPieces (Nesting.feedAll {} (before ++ s))
          (',' :: ([' '] ++ (join [',', ' '] (t :: more) ++ after)))
          = [] :: rawPieces {} ([' '] ++ (join [',', ' '] (t :: more) ++ after)) := by
        rw [hback]
        rfl
      have htrim : trim (before ++ s) = s := by
        have htrim := hs.firm.trim hbefore isBlank_of_mem_nil
        rwa [List.append_nil] at htrim
      rw [hsplit, rawPieces_append hfront hcut, List.map_cons, hrest, List.append_nil, htrim]

/-- Pieces that are joined by commas are found again. -/
theorem topLevelPieces_join {before after : Text} (hbefore : ∀ c ∈ before, isBlank c = true)
    (hafter : ∀ c ∈ after, isBlank c = true) (h : ∀ s ∈ texts, Piece s) (hne : texts ≠ []) :
    topLevelPieces (before ++ (join [',', ' '] texts ++ after)) = texts := by
  have hlast : texts.getLast? ≠ some [] := by
    intro hnil
    exact (h [] (List.mem_of_getLast? hnil)).firm.ne_nil rfl
  rw [topLevelPieces, trim_rawPieces_join hbefore hafter h hne]
  exact if_neg hlast

/-- A list without blanks around it, which may be empty. -/
theorem topLevelPieces_join_self (h : ∀ s ∈ texts, Piece s) :
    topLevelPieces (join [',', ' '] texts) = texts := by
  cases htexts : texts with
  | nil => rfl
  | cons s more =>
    have hpieces := topLevelPieces_join isBlank_of_mem_nil isBlank_of_mem_nil h (by simp [htexts])
    rwa [List.nil_append, List.append_nil, htexts] at hpieces

theorem balanced_join (h : ∀ s ∈ texts, Balanced s) : Balanced (join [',', ' '] texts) := by
  induction texts with
  | nil => exact .nil
  | cons s more ih =>
    have hs := h s List.mem_cons_self
    have hmore := ih fun t ht => h t (List.mem_cons_of_mem s ht)
    cases more with
    | nil => rwa [join, List.intercalate_singleton]
    | cons t more =>
      have hsep : Balanced [',', ' '] := .cons (by decide) (.cons (by decide) .nil)
      rw [join, List.intercalate_cons_cons]
      exact (hs.append hsep).append hmore

/-! ## Entries -/

/-- The text of an entry of a tome, from the key and the text of the value. -/
def entryText (entry : Text × Text) : Text :=
  literal entry.1 ++ ':' :: ' ' :: entry.2

/-- A key that is written as it is: not empty, and without quotes and backslashes. -/
def IsKey (key : Text) : Prop :=
  key ≠ [] ∧ ∀ c ∈ key, c ≠ '"' ∧ c ≠ '\\'

theorem escape_eq_self (h : ∀ c ∈ s, c ≠ '"' ∧ c ≠ '\\') : escape s = s := by
  induction s with
  | nil => rfl
  | cons c s ih =>
    obtain ⟨hquote, hbackslash⟩ := h c List.mem_cons_self
    rw [escape, List.flatMap_cons, written, if_neg (by simp [hquote, hbackslash])]
    exact congrArg (c :: ·) (ih fun d hd => h d (List.mem_cons_of_mem c hd))

theorem firm_literal (s : Text) : Firm (literal s) :=
  (firm_singleton (by decide)).append (escape s) (firm_singleton (by decide))

theorem piece_entryText {entry : Text × Text} (h : Piece entry.2) : Piece (entryText entry) where
  balanced := (balanced_literal _).append (.cons (by decide) (.cons (by decide) h.balanced))
  commas := by
    rw [entryText, misses_append, (balanced_literal _).feedAll]
    exact ⟨(hidden_literal 0 _).misses, fun _ => rfl, fun _ => rfl, h.commas⟩
  firm := (firm_literal _).append [':', ' '] h.firm

theorem splitPair_entryText {entry : Text × Text} (h : Firm entry.2) :
    splitPair (entryText entry) = (literal entry.1, entry.2) := by
  have hsplit : splitTopLevel? ':' (entryText entry) = some (literal entry.1, ' ' :: entry.2) := by
    have hkey : Misses (· == ':') {} (literal entry.1) := (hidden_literal 0 _).misses
    rw [splitTopLevel?, entryText, splitFrom_append hkey, (balanced_literal _).feedAll]
    simp [splitFrom, atTop, outside, delimits]
  have hvalue : trim (' ' :: entry.2) = entry.2 := by
    have htrim := h.trim isBlank_of_mem_space isBlank_of_mem_nil
    rwa [List.append_nil, List.singleton_append] at htrim
  rw [splitPair, hsplit]
  simp only [hvalue, (firm_literal _).trim_self]

theorem bareKey_literal {key : Text} (h : IsKey key) : bareKey (literal key) = key := by
  simp [bareKey, literal, escape_eq_self h.2, dropFirst?, dropLast?, h.1]

/-- The keys and value texts of a tome are found again. -/
theorem tomePairs_join {entries : List (Text × Text)}
    (h : ∀ entry ∈ entries, IsKey entry.1 ∧ Piece entry.2) :
    tomePairs ([' '] ++ (join [',', ' '] (entries.map entryText) ++ [' '])) = entries := by
  cases hentries : entries with
  | nil => decide
  | cons first more =>
    rw [← hentries]
    have hpiece : ∀ s ∈ entries.map entryText, Piece s := by
      intro s hs
      obtain ⟨entry, hentry, rfl⟩ := List.mem_map.1 hs
      exact piece_entryText (h entry hentry).2
    have hne : entries.map entryText ≠ [] := by simp [hentries]
    have hfull : (entries.map entryText).filter (!·.isEmpty) = entries.map entryText := by
      refine List.filter_eq_self.2 fun s hs => ?_
      simpa using (hpiece s hs).firm.ne_nil
    rw [tomePairs, topLevelPieces_join isBlank_of_mem_space isBlank_of_mem_space hpiece hne,
      hfull, List.map_map]
    refine (List.map_congr_left fun entry hentry => ?_).trans (List.map_id entries)
    obtain ⟨hkey, hvalue⟩ := h entry hentry
    simp only [Function.comp_apply, splitPair_entryText hvalue.firm, bareKey_literal hkey, id]

end Text

/-! ## Operands -/

namespace Operator

/-- How tightly an operator binds. -/
def tightness (op : Operator) : Nat :=
  if op.isAdditive then 0 else 1

theorem tightness_le (op : Operator) : op.tightness ≤ 1 := by
  cases op <;> decide

end Operator

namespace Text

open Nesting

variable {s t a b : Text}

/-- A piece at whose top level only operators stand that bind at least so tightly. -/
structure Operand (tightness : Nat) (s : Text) : Prop extends Piece s where
  operators : ∀ (afterBlank : Bool) (place : Nat) (t : Text), ∃ found : List (Nat × Operator),
    (∀ f ∈ found, tightness ≤ f.2.tightness) ∧
      operatorsFrom {} afterBlank place (s ++ t)
        = found ++ operatorsFrom {} false (place + s.length) t

theorem Piece.operand (h : Piece s) (hops : Misses isOperator {} s) (tightness : Nat) :
    Operand tightness s where
  toPiece := h
  operators afterBlank place t := by
    have hends : endsBlank afterBlank s = false := by
      obtain ⟨c, hc, hblank⟩ := h.firm.last
      obtain ⟨front, rfl⟩ := List.getLast?_eq_some_iff.1 hc
      rw [endsBlank, List.foldl_append]
      exact hblank
    refine ⟨[], by simp, ?_⟩
    rw [operatorsFrom_append hops, h.balanced.feedAll, hends, List.nil_append]

/-- Two operands with an operator between them. -/
def joined (a : Text) (op : Operator) (b : Text) : Text :=
  a ++ ' ' :: op.toChar :: ' ' :: b

/-- The operator between two operands is found, and then those of the second. -/
theorem operatorsFrom_joint (op : Operator) (place : Nat) (t : Text) :
    operatorsFrom {} false place (' ' :: op.toChar :: ' ' :: t)
      = (place + 1, op) :: operatorsFrom {} true (place + 3) t := by
  cases op <;> rfl

theorem delimits_toChar (op : Operator) : delimits op.toChar = false := by
  cases op <;> rfl

variable {op : Operator} {tightness : Nat}

theorem piece_joined (ha : Piece a) (hb : Piece b) : Piece (joined a op b) where
  balanced := ha.balanced.append
    (.cons (by decide) (.cons (delimits_toChar op) (.cons (by decide) hb.balanced)))
  commas := by
    have hfeed : ({} : Nesting).feed op.toChar = {} := feed_level (delimits_toChar op) 0
    have hspace : ({} : Nesting).feed ' ' = {} := rfl
    rw [joined, misses_append, ha.balanced.feedAll]
    refine ⟨ha.commas, fun _ => rfl, ?_⟩
    rw [hspace]
    refine ⟨fun _ => by cases op <;> rfl, ?_⟩
    rw [hfeed]
    exact ⟨fun _ => rfl, hb.commas⟩
  firm := ha.firm.append [' ', op.toChar, ' '] hb.firm

theorem Operand.joined (ha : Operand op.tightness a) (hb : Operand (op.tightness + 1) b)
    (h : tightness ≤ op.tightness) : Operand tightness (joined a op b) where
  toPiece := piece_joined ha.toPiece hb.toPiece
  operators afterBlank place t := by
    obtain ⟨left, hleft, hopsLeft⟩ :=
      ha.operators afterBlank place (' ' :: op.toChar :: ' ' :: (b ++ t))
    obtain ⟨right, hright, hopsRight⟩ := hb.operators true (place + a.length + 3) t
    refine ⟨left ++ (place + a.length + 1, op) :: right, ?_, ?_⟩
    · -- the operands have no operators that bind less tightly than the one between them
      intro f hf
      rcases List.mem_append.1 hf with hf | hf
      · exact Nat.le_trans h (hleft f hf)
      rcases List.mem_cons.1 hf with rfl | hf
      · exact h
      · exact Nat.le_trans h (Nat.le_of_succ_le (hright f hf))
    · have hlength : place + a.length + 3 + b.length = place + (Text.joined a op b).length := by
        simp only [Text.joined, List.length_append, List.length_cons]
        omega
      have happend : Text.joined a op b ++ t = a ++ ' ' :: op.toChar :: ' ' :: (b ++ t) := by
        simp [Text.joined]
      rw [happend, hopsLeft, operatorsFrom_joint, hopsRight, hlength, List.append_assoc,
        List.cons_append]

/-- Of all operators at the top level the main one is between the operands. -/
theorem mainOperator?_joined (ha : Operand op.tightness a) (hb : Operand (op.tightness + 1) b) :
    mainOperator? (joined a op b) = some (a.length + 1, op) := by
  obtain ⟨left, hleft, hopsLeft⟩ := ha.operators false 0 (' ' :: op.toChar :: ' ' :: b)
  obtain ⟨right, hright, hopsRight⟩ := hb.operators true (a.length + 3) []
  have hfound : operatorsFrom {} false 0 (joined a op b)
      = left ++ (a.length + 1, op) :: right := by
    rw [joined, hopsLeft, Nat.zero_add, operatorsFrom_joint]
    rw [List.append_nil] at hopsRight
    rw [hopsRight]
    simp [operatorsFrom]
  have htight : ∀ f : Nat × Operator, 1 ≤ f.2.tightness → f.2.isAdditive = false := by
    intro f hf
    rw [Bool.eq_false_iff]
    intro hadditive
    rw [Operator.tightness, if_pos hadditive] at hf
    omega
  have hright' : right.filter (·.2.isAdditive) = [] := by
    refine List.filter_eq_nil_iff.2 fun f hf => ?_
    rw [htight f (by have := hright f hf; omega)]
    exact Bool.false_ne_true
  -- the last additive operator is the main one, and if there is none, the last operator
  unfold mainOperator?
  simp only [hfound]
  cases hop : op.isAdditive with
  | true => simp [List.filter_append, hop, hright']
  | false =>
    have hone : op.tightness = 1 := by rw [Operator.tightness, hop]; rfl
    -- no operator binds more tightly than this one, so the right operand has none
    have hnone : right = [] := by
      refine List.eq_nil_iff_forall_not_mem.2 fun f hf => ?_
      have hle := hright f hf
      have hge := f.2.tightness_le
      omega
    have hleft' : left.filter (·.2.isAdditive) = [] := by
      refine List.filter_eq_nil_iff.2 fun f hf => ?_
      rw [htight f (by have := hleft f hf; omega)]
      exact Bool.false_ne_true
    simp [List.filter_append, hop, hnone, hleft']

/-- Operands that an operator joins are found again. -/
theorem splitBinary?_joined (ha : Operand op.tightness a) (hb : Operand (op.tightness + 1) b) :
    splitBinary? (joined a op b) = some (a, op, b) := by
  have htake : (joined a op b).take (a.length + 1) = [] ++ (a ++ [' ']) := by
    rw [joined, List.take_length_add_append]
    rfl
  have hdrop : (joined a op b).drop (a.length + 1 + 1) = [' '] ++ (b ++ []) := by
    rw [joined, Nat.add_assoc, List.drop_length_add_append, List.append_nil]
    rfl
  have hleft : a.isEmpty = false := by simpa using ha.firm.ne_nil
  have hright : b.isEmpty = false := by simpa using hb.firm.ne_nil
  rw [splitBinary?, mainOperator?_joined ha hb]
  simp only [Option.bind_eq_bind, Option.bind_some, htake, hdrop,
    ha.firm.trim isBlank_of_mem_nil isBlank_of_mem_space,
    hb.firm.trim isBlank_of_mem_space isBlank_of_mem_nil, hleft, hright, Bool.or_self,
    Bool.false_eq_true, ↓reduceIte]

end Text

end Grimoire
