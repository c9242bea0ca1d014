import Grimoire.Nesting
import Mathlib.Data.List.Basic

/-!
# Balanced texts

A scan of a balanced text closes every bracket and every string that it opens, and nothing else.
Balanced texts can be put one after the other and wrapped in brackets; inside brackets and strings
nothing of them stands at the top level. What a scan looks for at the top level it does not find in
a text that misses it, and then it goes on behind the text.
-/

namespace Grimoire

namespace Nesting

/-! ## Scans -/

@[simp]
theorem feedAll_nil (n : Nesting) : n.feedAll [] = n := rfl

@[simp]
theorem feedAll_cons (n : Nesting) (c : Char) (s : Text) :
    n.feedAll (c :: s) = (n.feed c).feedAll s := rfl

@[simp]
theorem feedAll_append (n : Nesting) (s t : Text) :
    n.feedAll (s ++ t) = (n.feedAll s).feedAll t :=
  List.foldl_append

/-- A scan outside strings and inside `depth` brackets. -/
def level (depth : Int) : Nesting :=
  ⟨depth, none, false⟩

/-- A scan in a double-quoted string and inside `depth` brackets. -/
def inString (depth : Int) : Nesting :=
  ⟨depth, some '"', false⟩

theorem feed_level {c : Char} (h : delimits c = false) (depth : Int) :
    (level depth).feed c = level depth := by
  simp only [delimits, decide_eq_false_iff_not, List.mem_cons, List.not_mem_nil, or_false,
    not_or] at h
  obtain ⟨h₁, h₂, h₃, h₄, h₅, h₆, h₇, h₈⟩ := h
  simp [feed, level, h₁, h₂, h₃, h₄, h₅, h₆, h₇, h₈]

theorem atTop_level {depth : Int} (h : 1 ≤ depth) (c : Char) : (level depth).atTop c = false := by
  have hdepth : depth ≠ 0 := by omega
  simp [atTop, outside, level, hdepth]

theorem atTop_of_delimits {n : Nesting} {c : Char} (h : delimits c = true) : n.atTop c = false := by
  simp [atTop, h]

/-! ## Missing something -/

/-- Nothing of the kind stands at the top level of a text that is scanned from `n` on. -/
def Misses (kind : Char → Bool) (n : Nesting) : Text → Prop
  | [] => True
  | c :: rest => (n.atTop c = true → kind c = false) ∧ Misses kind (n.feed c) rest

instance decidableMisses (kind : Char → Bool) (n : Nesting) :
    (s : Text) → Decidable (Misses kind n s)
  | [] => .isTrue trivial
  | c :: rest =>
    have := decidableMisses kind (n.feed c) rest
    inferInstanceAs (Decidable ((n.atTop c = true → kind c = false) ∧ _))

variable {kind : Char → Bool} {n : Nesting} {s t : Text}

theorem misses_append : Misses kind n (s ++ t) ↔ Misses kind n s ∧ Misses kind (n.feedAll s) t := by
  induction s generalizing n with
  | nil => simp [Misses]
  | cons c s ih => rw [List.cons_append, Misses, Misses, feedAll_cons, ih, and_assoc]

/-- Nothing of a text stands at the top level. -/
def Hidden (n : Nesting) (s : Text) : Prop :=
  Misses (fun _ => true) n s

theorem Hidden.misses (h : Hidden n s) : Misses kind n s := by
  induction s generalizing n with
  | nil => trivial
  | cons c s ih =>
    refine ⟨fun htop => ?_, ih h.2⟩
    have hnever : true = false := h.1 htop
    cases hnever

theorem hidden_append : Hidden n (s ++ t) ↔ Hidden n s ∧ Hidden (n.feedAll s) t :=
  misses_append

theorem hidden_cons {c : Char} : Hidden n (c :: s) ↔ n.atTop c = false ∧ Hidden (n.feed c) s := by
  rw [Hidden, Misses, ← Hidden]
  simp

end Nesting

namespace Text

open Nesting

/-! ## Balance -/

/-- A text that closes what it opens and nothing else. -/
structure Balanced (s : Text) : Prop where
  feedAll_level : ∀ depth, (level depth).feedAll s = level depth
  balancedFrom_append : ∀ {depth : Int} (_ : 0 ≤ depth) (t : Text),
    balancedFrom (level depth) (s ++ t) = balancedFrom (level depth) t
  hidden : ∀ {depth : Int}, 1 ≤ depth → Hidden (level depth) s

variable {s t : Text} {c : Char}

theorem Balanced.nil : Balanced [] where
  feedAll_level _ := rfl
  balancedFrom_append _ _ := rfl
  hidden _ := trivial

theorem Balanced.append (hs : Balanced s) (ht : Balanced t) : Balanced (s ++ t) where
  feedAll_level depth := by rw [feedAll_append, hs.feedAll_level, ht.feedAll_level]
  balancedFrom_append hdepth more := by
    rw [List.append_assoc, hs.balancedFrom_append hdepth, ht.balancedFrom_append hdepth]
  hidden hdepth := by
    rw [hidden_append, hs.feedAll_level]
    exact ⟨hs.hidden hdepth, ht.hidden hdepth⟩

theorem balanced_singleton (h : delimits c = false) : Balanced [c] where
  feedAll_level depth := feed_level h depth
  balancedFrom_append hdepth t := by
    rw [List.singleton_append, balancedFrom, feed_level h]
    simp [level, hdepth]
  hidden hdepth := by
    rw [hidden_cons]
    exact ⟨atTop_level hdepth c, trivial⟩

theorem Balanced.cons (h : delimits c = false) (hs : Balanced s) : Balanced (c :: s) :=
  (balanced_singleton h).append hs

/-- A text without quotes and brackets is balanced. -/
theorem balanced_of_plain (h : ∀ c ∈ s, delimits c = false) : Balanced s := by
  induction s with
  | nil => exact .nil
  | cons c s ih =>
    exact .cons (h c List.mem_cons_self) (ih fun d hd => h d (List.mem_cons_of_mem c hd))

/-- A balanced text scans to its end outside everything. -/
theorem Balanced.balancedFrom (hs : Balanced s) : balancedFrom {} s = true := by
  have happend := hs.balancedFrom_append (Int.le_refl 0) []
  rw [List.append_nil] at happend
  exact happend

theorem Balanced.feedAll (hs : Balanced s) : Nesting.feedAll {} s = {} :=
  hs.feedAll_level 0

/-! ## Brackets -/

/-- Two characters that open and close a bracket. -/
def Brackets (opening closing : Char) : Prop :=
  (opening = '[' ∧ closing = ']') ∨ (opening = '(' ∧ closing = ')') ∨
    (opening = '\x7b' ∧ closing = '\x7d')

variable {opening closing : Char}

theorem Brackets.feed_opening (h : Brackets opening closing) (depth : Int) :
    (level depth).feed opening = level (depth + 1) := by
  rcases h with ⟨rfl, -⟩ | ⟨rfl, -⟩ | ⟨rfl, -⟩ <;> rfl

theorem Brackets.feed_closing (h : Brackets opening closing) (depth : Int) :
    (level (depth + 1)).feed closing = level depth := by
  have hback : level (depth + 1 - 1) = level depth := by rw [Int.add_sub_cancel]
  rcases h with ⟨-, rfl⟩ | ⟨-, rfl⟩ | ⟨-, rfl⟩ <;> exact hback

theorem Brackets.delimits (h : Brackets opening closing) :
    Nesting.delimits opening = true ∧ Nesting.delimits closing = true := by
  rcases h with ⟨rfl, rfl⟩ | ⟨rfl, rfl⟩ | ⟨rfl, rfl⟩ <;> exact ⟨rfl, rfl⟩

/-- Nothing in brackets stands at the top level, nor do the brackets. -/
theorem Balanced.hidden_brackets (hs : Balanced s) (h : Brackets opening closing) {depth : Int}
    (hdepth : 0 ≤ depth) : Hidden (level depth) (opening :: (s ++ [closing])) := by
  rw [hidden_cons, h.feed_opening, hidden_append, hs.feedAll_level, hidden_cons]
  exact ⟨atTop_of_delimits h.delimits.1, hs.hidden (by omega), atTop_of_delimits h.delimits.2,
    trivial⟩

theorem Balanced.brackets (hs : Balanced s) (h : Brackets opening closing) :
    Balanced (opening :: (s ++ [closing])) where
  feedAll_level depth := by
    rw [feedAll_cons, h.feed_opening, feedAll_append, hs.feedAll_level, feedAll_cons,
      h.feed_closing]
    rfl
  balancedFrom_append {depth} hdepth t := by
    have hdepth' : (0 : Int) ≤ depth + 1 := by omega
    rw [List.cons_append, Text.balancedFrom, h.feed_opening, List.append_assoc,
      hs.balancedFrom_append hdepth', List.singleton_append, Text.balancedFrom, h.feed_closing]
    simp [level, hdepth, hdepth']
  hidden hdepth := hs.hidden_brackets h (by omega)

/-- A text that closes a bracket which it has not opened is not balanced. -/
theorem Balanced.balancedFrom_closing (hs : Balanced s) (h : Brackets opening closing) (t : Text) :
    Text.balancedFrom {} (s ++ closing :: t) = false := by
  have hfeed := h.feed_closing (-1)
  have happend := hs.balancedFrom_append (Int.le_refl 0) (closing :: t)
  rw [Text.balancedFrom, show level 0 = level (-1 + 1) from rfl, hfeed] at happend
  simpa [level] using happend

/-- Brackets around a balanced text are taken off. -/
theorem Balanced.unwrap? (hs : Balanced s) :
    Text.unwrap? opening closing (opening :: (s ++ [closing])) = some s := by
  simp [Text.unwrap?, dropFirst?, dropLast?, hs.balancedFrom]

theorem unwrap?_of_ne {c : Char} (h : c ≠ opening) (s : Text) :
    Text.unwrap? opening closing (c :: s) = none := by
  rw [Text.unwrap?, dropFirst?, if_neg h]
  rfl

/-- What is left of a text without its last character begins as the text does. -/
theorem exists_of_dropLast?_append {closing : Char} {inner : Text} (ht : t ≠ [])
    (h : dropLast? closing (s ++ c :: t) = some inner) : ∃ front, inner = s ++ c :: front := by
  obtain ⟨front, last, rfl⟩ := (List.eq_nil_or_concat' t).resolve_left ht
  have hdrop : (s ++ c :: (front ++ [last])).dropLast = s ++ c :: front := by
    rw [← List.cons_append, ← List.append_assoc, List.dropLast_concat]
  rw [dropLast?, hdrop] at h
  split at h
  · exact ⟨front, (Option.some.inj h).symm⟩
  · cases h

/-- Brackets that are closed before the end of a text are no brackets around it. -/
theorem Balanced.unwrap?_append (hs : Balanced s) (h : Brackets opening closing) (ht : t ≠ []) :
    Text.unwrap? opening closing (opening :: (s ++ closing :: t)) = none := by
  rw [Text.unwrap?, dropFirst?, if_pos rfl]
  simp only [Option.bind_eq_bind, Option.bind_some]
  cases hinner : dropLast? closing (s ++ closing :: t) with
  | none => rfl
  | some inner =>
    obtain ⟨front, rfl⟩ := exists_of_dropLast?_append ht hinner
    rw [Option.bind_some, hs.balancedFrom_closing h front]
    rfl

/-! ## String literals -/

/-- A character as it is written between double quotes. -/
def written (c : Char) : Text :=
  if c = '"' ∨ c = '\\' then ['\\', c] else [c]

/-- A text as it is written between double quotes. -/
def escape (s : Text) : Text :=
  s.flatMap written

/-- A text in double quotes. -/
def literal (s : Text) : Text :=
  '"' :: (escape s ++ ['"'])

theorem feed_inString {c : Char} (h : ¬ (c = '"' ∨ c = '\\')) (depth : Int) :
    (inString depth).feed c = inString depth := by
  rw [not_or] at h
  simp [feed, inString, h.1, h.2]

theorem feedAll_written (depth : Int) (c : Char) :
    (inString depth).feedAll (written c) = inString depth := by
  unfold written
  split
  · rfl
  · next h => exact feed_inString h depth

theorem hidden_written (depth : Int) (c : Char) : Hidden (inString depth) (written c) := by
  unfold written
  split
  · exact hidden_cons.2 ⟨rfl, hidden_cons.2 ⟨rfl, trivial⟩⟩
  · exact hidden_cons.2 ⟨rfl, trivial⟩

theorem balancedFrom_written {depth : Int} (hdepth : 0 ≤ depth) (c : Char) (t : Text) :
    Text.balancedFrom (inString depth) (written c ++ t) = Text.balancedFrom (inString depth) t := by
  unfold written
  split
  · have hfeed : ((inString depth).feed '\\').feed c = inString depth := rfl
    have hopen : decide (0 ≤ ((inString depth).feed '\\').depth) = true := decide_eq_true hdepth
    have hclose : decide (0 ≤ (inString depth).depth) = true := decide_eq_true hdepth
    simp only [List.cons_append, List.nil_append, Text.balancedFrom, hfeed, hopen, hclose,
      Bool.true_and]
  · next h =>
    rw [List.singleton_append, Text.balancedFrom, feed_inString h]
    simp [inString, hdepth]

theorem feedAll_escape (depth : Int) (s : Text) :
    (inString depth).feedAll (escape s) = inString depth := by
  induction s with
  | nil => rfl
  | cons c s ih =>
    rw [escape, List.flatMap_cons, feedAll_append, feedAll_written]
    exact ih

theorem hidden_escape (depth : Int) (s : Text) : Hidden (inString depth) (escape s) := by
  induction s with
  | nil => trivial
  | cons c s ih =>
    rw [escape, List.flatMap_cons, hidden_append, feedAll_written]
    exact ⟨hidden_written depth c, ih⟩

theorem balancedFrom_escape {depth : Int} (hdepth : 0 ≤ depth) (s t : Text) :
    Text.balancedFrom (inString depth) (escape s ++ t) = Text.balancedFrom (inString depth) t := by
  induction s with
  | nil => rfl
  | cons c s ih =>
    rw [escape, List.flatMap_cons, List.append_assoc, balancedFrom_written hdepth]
    exact ih

/-- Nothing of a string literal stands at the top level. -/
theorem hidden_literal (depth : Int) (s : Text) : Hidden (level depth) (literal s) := by
  have hopen : (level depth).feed '"' = inString depth := rfl
  rw [literal, hidden_cons, hopen, hidden_append, hidden_cons]
  exact ⟨atTop_of_delimits rfl, hidden_escape depth s, atTop_of_delimits rfl, trivial⟩

theorem balanced_literal (s : Text) : Balanced (literal s) where
  feedAll_level depth := by
    have hopen : (level depth).feed '"' = inString depth := rfl
    rw [literal, feedAll_cons, hopen, feedAll_append, feedAll_escape]
    rfl
  balancedFrom_append {depth} hdepth t := by
    have hopen : (level depth).feed '"' = inString depth := rfl
    have hclose : (inString depth).feed '"' = level depth := rfl
    rw [literal, List.cons_append, Text.balancedFrom, hopen, List.append_assoc,
      balancedFrom_escape hdepth, List.singleton_append, Text.balancedFrom, hclose]
    simp [level, inString, hdepth]
  hidden _ := hidden_literal _ s

/-! ## Scans behind a text -/

/-- The pieces of a text behind one without commas at the top level. -/
theorem rawPieces_append {n : Nesting} (h : Misses (· == ',') n s) {piece : Text}
    {pieces : List Text} (ht : rawPieces (n.feedAll s) t = piece :: pieces) :
    rawPieces n (s ++ t) = (s ++ piece) :: pieces := by
  induction s generalizing n with
  | nil => exact ht
  | cons c s ih =>
    have hmore := ih h.2 ht
    have hcomma : (n.atTop c && c == ',') = false := by
      cases htop : n.atTop c with
      | false => rfl
      | true => exact h.1 htop
    rw [List.cons_append, rawPieces, hmore, hcomma]
    rfl

/-- The first occurrence of a character that a text misses is behind the text. -/
theorem splitFrom_append {needle : Char} {n : Nesting} (h : Misses (· == needle) n s)
    (before t : Text) :
    splitFrom needle n before (s ++ t) = splitFrom needle (n.feedAll s) (s.reverse ++ before) t := by
  induction s generalizing n before with
  | nil => rfl
  | cons c s ih =>
    have hneedle : (n.atTop c && c == needle) = false := by
      cases htop : n.atTop c with
      | false => rfl
      | true => exact h.1 htop
    rw [List.cons_append, splitFrom, hneedle, if_neg Bool.false_ne_true, ih h.2, feedAll_cons,
      List.reverse_cons, List.append_assoc]
    rfl

/-- Whether the last character of a text is a blank, or the one before the text if it is empty. -/
def endsBlank (before : Bool) (s : Text) : Bool :=
  s.foldl (fun _ c => isBlank c) before

/-- Whether a character stands for an operator. -/
def isOperator (c : Char) : Bool :=
  (Operator.ofChar? c).isSome

/-- A text without operators at the top level has none that count. -/
theorem operatorsFrom_append {n : Nesting} (h : Misses isOperator n s) (afterBlank : Bool)
    (place : Nat) (t : Text) :
    operatorsFrom n afterBlank place (s ++ t)
      = operatorsFrom (n.feedAll s) (endsBlank afterBlank s) (place + s.length) t := by
  induction s generalizing n afterBlank place with
  | nil => rfl
  | cons c s ih =>
    have hrest := ih h.2 (isBlank c) (place + 1)
    rw [List.cons_append, operatorsFrom, hrest, Nat.add_assoc, Nat.add_comm 1]
    cases hop : Operator.ofChar? c with
    | none => rfl
    | some op =>
      have htop : n.atTop c = false := by
        rw [Bool.eq_false_iff]
        intro htop
        have hnone := h.1 htop
        rw [isOperator, hop] at hnone
        cases hnone
      simp only [htop, Bool.false_and, Bool.false_eq_true, ↓reduceIte]
      rfl

end Text

end Grimoire
