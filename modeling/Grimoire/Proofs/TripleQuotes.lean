import Grimoire.Proofs.Grammar
import Grimoire.Proofs.HigherOrder

/-!
# Texts between triple quotes

A text between three quotes and three quotes of the same kind is a literal, whatever is in it, since
only its ends are looked at. A scan sees each of its fences as an empty string and half of another
one, so nothing of the literal stands at the top level. Literals in a list are therefore found one
by one, and so are two literals with an operator between them, unless their fences are of the same
kind: then the whole begins and ends with these fences and is itself one literal.
-/

namespace Grimoire

open Text Nesting

/-- The quotes that fence a literal. -/
inductive Fence where
  | double
  | single
  deriving DecidableEq, Repr

namespace Fence

/-- The quote of which a fence has three. -/
def mark : Fence → Char
  | double => '"'
  | single => '\''

/-- Three quotes. -/
def marks (f : Fence) : Text :=
  [f.mark, f.mark, f.mark]

/-- A text between fences. -/
def around (f : Fence) (s : Text) : Text :=
  f.marks ++ (s ++ f.marks)

variable {f f' : Fence} {s t : Text} {depth : Int}

/-- A text that neither ends a string nor escapes the end of one. -/
def Encloses (f : Fence) (s : Text) : Prop :=
  ∀ c ∈ s, c ≠ f.mark ∧ c ≠ '\\'

instance (f : Fence) (s : Text) : Decidable (f.Encloses s) :=
  inferInstanceAs (Decidable (∀ c ∈ s, c ≠ f.mark ∧ c ≠ '\\'))

theorem encloses_nil : f.Encloses [] :=
  fun _ h => absurd h List.not_mem_nil

/-! ## One quote on either side -/

/-- A scan in a string that a quote has opened. -/
def inside (f : Fence) (depth : Int) : Nesting :=
  ⟨depth, some f.mark, false⟩

theorem feed_mark (f : Fence) (depth : Int) : (level depth).feed f.mark = f.inside depth := by
  cases f <;> rfl

theorem feed_inside_mark (f : Fence) (depth : Int) :
    (f.inside depth).feed f.mark = level depth := by
  cases f <;> rfl

theorem delimits_mark (f : Fence) : delimits f.mark = true := by
  cases f <;> rfl

theorem feed_inside {c : Char} (h : c ≠ f.mark ∧ c ≠ '\\') (depth : Int) :
    (f.inside depth).feed c = f.inside depth := by
  simp [feed, inside, h.1, h.2]

theorem feedAll_inside (h : f.Encloses s) (depth : Int) :
    (f.inside depth).feedAll s = f.inside depth := by
  induction s with
  | nil => rfl
  | cons c s ih =>
    obtain ⟨hc, hs⟩ := List.forall_mem_cons.1 h
    rw [feedAll_cons, feed_inside hc, ih hs]

theorem hidden_inside (h : f.Encloses s) (depth : Int) : Hidden (f.inside depth) s := by
  induction s with
  | nil => trivial
  | cons c s ih =>
    obtain ⟨hc, hs⟩ := List.forall_mem_cons.1 h
    rw [hidden_cons, feed_inside hc]
    exact ⟨rfl, ih hs⟩

theorem balancedFrom_inside (h : f.Encloses s) (hdepth : 0 ≤ depth) (t : Text) :
    balancedFrom (f.inside depth) (s ++ t) = balancedFrom (f.inside depth) t := by
  induction s with
  | nil => rfl
  | cons c s ih =>
    obtain ⟨hc, hs⟩ := List.forall_mem_cons.1 h
    rw [List.cons_append, balancedFrom, feed_inside hc, ih hs]
    simp [inside, hdepth]

/-- A text between two quotes. -/
def quote (f : Fence) (s : Text) : Text :=
  f.mark :: (s ++ [f.mark])

theorem hidden_quote (h : f.Encloses s) (depth : Int) : Hidden (level depth) (f.quote s) := by
  rw [quote, hidden_cons, feed_mark, hidden_append, feedAll_inside h, hidden_cons]
  exact ⟨atTop_of_delimits f.delimits_mark, hidden_inside h depth,
    atTop_of_delimits f.delimits_mark, trivial⟩

theorem balanced_quote (h : f.Encloses s) : Balanced (f.quote s) where
  feedAll_level depth := by
    rw [quote, feedAll_cons, feed_mark, feedAll_append, feedAll_inside h, feedAll_cons,
      feed_inside_mark, feedAll_nil]
  balancedFrom_append {depth} hdepth t := by
    rw [quote, List.cons_append, balancedFrom, feed_mark, List.append_assoc,
      balancedFrom_inside h hdepth, List.singleton_append, balancedFrom, feed_inside_mark]
    simp [inside, level, hdepth]
  hidden _ := hidden_quote h _

/-! ## Three quotes on either side -/

/-- For a scan a fence is an empty string before the string, and one behind it. -/
theorem around_eq (f : Fence) (s : Text) :
    f.around s = f.quote [] ++ (f.quote s ++ f.quote []) := by
  simp [around, marks, quote]

theorem balanced_around (h : f.Encloses s) : Balanced (f.around s) := by
  rw [around_eq]
  have hnil : Balanced (f.quote []) := balanced_quote encloses_nil
  exact hnil.append ((balanced_quote h).append hnil)

theorem hidden_around (h : f.Encloses s) : Hidden {} (f.around s) := by
  have hempty : Nesting.feedAll {} (f.quote []) = {} := (balanced_quote encloses_nil).feedAll
  have hquote : Nesting.feedAll {} (f.quote s) = {} := (balanced_quote h).feedAll
  rw [around_eq, hidden_append, hempty, hidden_append, hquote]
  exact ⟨hidden_quote encloses_nil 0, hidden_quote h 0, hidden_quote encloses_nil 0⟩

theorem firm_marks (f : Fence) : Firm f.marks :=
  firm_of_forall (List.cons_ne_nil _ _) (by cases f <;> decide)

theorem operand_around (h : f.Encloses s) (tightness : Nat) :
    Text.Operand tightness (f.around s) :=
  operand_of_hidden (balanced_around h) (hidden_around h) (f.firm_marks.append s f.firm_marks)
    tightness

/-! ## What the reader makes of it -/

theorem mem_fences (f : Fence) : f.marks ∈ ["\"\"\"".toList, "'''".toList] := by
  cases f <;> decide

/-- Whatever is between the fences, it is what the literal stands for. -/
theorem tripleQuoted?_around (f : Fence) (s : Text) : tripleQuoted? (f.around s) = some s := by
  have hstart : startsWith f.marks (f.around s) = true :=
    List.isPrefixOf_iff_prefix.2 (List.prefix_append f.marks _)
  have hend : endsWith f.marks (f.around s) = true := by
    rw [endsWith, List.isSuffixOf_iff_suffix, around, ← List.append_assoc]
    exact List.suffix_append _ f.marks
  have hends : (["\"\"\"".toList, "'''".toList].any fun fence =>
      startsWith fence (f.around s) && endsWith fence (f.around s)) = true :=
    List.any_eq_true.2 ⟨f.marks, f.mem_fences, Bool.and_eq_true_iff.2 ⟨hstart, hend⟩⟩
  have hlength : (f.around s).length = s.length + 6 := by
    simp [around, marks]
  rw [tripleQuoted?, if_pos ⟨by omega, hends⟩, hlength]
  simp [around, marks]

theorem layer_around (f : Fence) (s : Text) : Layer.of (f.around s) = .text s := by
  simp only [Layer.of, tripleQuoted?_around]

/-- Literals with fences of the same kind are one literal when they are added. -/
theorem joined_around (f : Fence) (s t : Text) :
    joined (f.around s) .add (f.around t) =
      f.around (s ++ (f.marks ++ (" + ".toList ++ (f.marks ++ t)))) := by
  simp [joined, around, Operator.toChar]

theorem mark_inj (h : f.mark = f'.mark) : f = f' := by
  cases f <;> cases f' <;> first | rfl | exact absurd h (by decide)

theorem getLast?_append_around (f : Fence) (s t : Text) :
    (s ++ f.around t).getLast? = some f.mark := by
  rw [around, ← List.append_assoc, ← List.append_assoc, List.getLast?_append]
  rfl

/-- The fences of a literal are of the same kind. -/
theorem tripleQuoted?_eq_none_of_ne {c : Text} (hfirst : c.head? = some f.mark)
    (hlast : c.getLast? = some f'.mark) (hne : f ≠ f') : tripleQuoted? c = none := by
  have hfence : ∀ g : Fence, ¬ (startsWith g.marks c && endsWith g.marks c) = true := by
    intro g hends
    obtain ⟨hstart, hend⟩ := Bool.and_eq_true_iff.1 hends
    obtain ⟨rest, rfl⟩ := List.isPrefixOf_iff_prefix.1 hstart
    obtain ⟨front, hfront⟩ := List.isSuffixOf_iff_suffix.1 hend
    rw [← hfront] at hlast
    have hf : g = f := mark_inj (Option.some.inj hfirst)
    have hf' : g = f' := mark_inj (Option.some.inj (by simpa [marks] using hlast))
    exact hne (hf.symm.trans hf')
  rw [tripleQuoted?, if_neg]
  rintro ⟨-, hany⟩
  obtain ⟨fence, hmem, hends⟩ := List.any_eq_true.1 hany
  simp only [List.mem_cons, List.not_mem_nil, or_false] at hmem
  rcases hmem with rfl | rfl
  · exact hfence .double hends
  · exact hfence .single hends

theorem quoted?_eq_none_of_ne {c : Text} (hfirst : c.head? = some f.mark)
    (hlast : c.getLast? = some f'.mark) (hne : f ≠ f') : quoted? c = none := by
  obtain ⟨rest, rfl⟩ := List.head?_eq_some_iff.1 hfirst
  cases f with
  | single => rfl
  | double =>
    have hf' : f' = .single := by
      cases f' with
      | double => exact absurd rfl hne
      | single => rfl
    subst hf'
    have hrest : dropLast? '"' rest = none := by
      rw [dropLast?, if_neg]
      intro hquote
      rw [List.getLast?_cons, hquote] at hlast
      exact absurd hlast (by decide)
    show (dropLast? '"' rest >>= fun inner =>
      if escapesClosed inner then some inner else none) = none
    rw [hrest]
    rfl

/-- Literals with fences of two kinds are the operands of the operator between them. -/
theorem layer_joined (hne : f ≠ f') (hs : f.Encloses s) (ht : f'.Encloses t) :
    Layer.of (joined (f.around s) .add (f'.around t)) =
      .binary (f.around s) .add (f'.around t) := by
  have hfirst : (joined (f.around s) .add (f'.around t)).head? = some f.mark := rfl
  have hlast : (joined (f.around s) .add (f'.around t)).getLast? = some f'.mark := by
    have hend := getLast?_append_around f' (f.around s ++ [' ', '+', ' ']) t
    rwa [List.append_assoc] at hend
  have hblank : ' ' ∈ joined (f.around s) .add (f'.around t) := by simp [joined]
  obtain ⟨rest, hrest⟩ := List.head?_eq_some_iff.1 hfirst
  have hphrase : NoPhrase (joined (f.around s) .add (f'.around t)) := by
    rw [hrest]
    exact noPhrase_of_head (by cases f <;> decide) rest
  have hbracket : ∀ opening closing, Brackets opening closing →
      unwrap? opening closing (joined (f.around s) .add (f'.around t)) = none := by
    intro opening closing hbrackets
    rw [hrest]
    apply unwrap?_of_ne
    rcases hbrackets with ⟨rfl, -⟩ | ⟨rfl, -⟩ | ⟨rfl, -⟩ <;> cases f <;> decide
  obtain ⟨-, -, hpath⟩ := unworded_of_mem hblank (by decide) (by decide) (by decide)
  rw [Layer.of_eq_ofContainer (tripleQuoted?_eq_none_of_ne hfirst hlast hne)
      (quoted?_eq_none_of_ne hfirst hlast hne) hblank (by decide) (by decide) (by decide),
    Layer.ofContainer_eq_ofCompound (hbracket _ _ (.inl ⟨rfl, rfl⟩)) hphrase.tome,
    Layer.ofCompound_eq_ofOperators hphrase hpath]
  simp only [Layer.ofOperators, hbracket _ _ (.inr (.inl ⟨rfl, rfl⟩)),
    splitBinary?_joined (operand_around hs _) (operand_around ht _)]

/-! ## Sums and lists of literals -/

theorem firm_around (f : Fence) (s : Text) : Firm (f.around s) :=
  f.firm_marks.append s f.firm_marks

theorem ofText_around (f : Fence) (s : Text) : Expr.ofText (f.around s) = .text s :=
  Term.ofText_eq_of_layer (f.firm_around s) (f.layer_around s)

/-- Whether a sum is read as one depends on the fences alone. -/
theorem ofText_joined (hs : f.Encloses s) (ht : f'.Encloses t) :
    Expr.ofText (joined (f.around s) .add (f'.around t)) =
      if f = f' then .text (s ++ (f.marks ++ (" + ".toList ++ (f.marks ++ t))))
      else .binary (.text s) .add (.text t) := by
  by_cases hne : f = f'
  · subst hne
    rw [if_pos rfl, joined_around, ofText_around]
  · have hfirm : Firm (joined (f.around s) .add (f'.around t)) :=
      (f.firm_around s).append [' ', '+', ' '] (f'.firm_around t)
    rw [if_neg hne, Term.ofText_eq_of_layer hfirm (layer_joined hne hs ht), Layer.assemble,
      ofText_around, ofText_around]

/-- The literals of a list are found one by one, whatever fences they have. -/
theorem ofText_listed {literals : List (Fence × Text)} (h : ∀ l ∈ literals, l.1.Encloses l.2) :
    Expr.ofText ('[' :: (join [',', ' '] (literals.map fun l => l.1.around l.2) ++ [']'])) =
      .sequence (literals.map fun l => .text l.2) := by
  have hpieces : ∀ s ∈ literals.map fun l => l.1.around l.2, Piece s := by
    intro s hs
    obtain ⟨l, hl, rfl⟩ := List.mem_map.1 hs
    exact (operand_around (h l hl) 0).toPiece
  have hbalanced := balanced_join fun s hs => (hpieces s hs).balanced
  have hfirm : Firm ('[' :: (join [',', ' '] (literals.map fun l => l.1.around l.2) ++ [']'])) :=
    (firm_singleton (by decide)).append _ (firm_singleton (by decide))
  rw [Term.ofText_eq_of_layer hfirm (Layer.of_sequence hbalanced), topLevelPieces_join_self hpieces,
    Layer.assemble, List.map_map]
  congr 1
  refine List.map_congr_left fun l hl => ?_
  exact ofText_around l.1 l.2

end Fence

theorem Store.applyOperator_strings (store : Store) (a b : Text) :
    store.applyOperator (.string a) .add (.string b) = .string (a ++ b) := by
  rw [applyOperator, if_pos ⟨rfl, Or.inl rfl⟩, display_string, display_string]

theorem Expr.evalAll_texts {α : Type} (text : α → Text) (bodies : List α) :
    evalAll (bodies.map fun a => .text (text a)) = pure (bodies.map fun a => .string (text a)) := by
  induction bodies with
  | nil => rfl
  | cons a bodies ih =>
    rw [List.map_cons, evalAll, ih]
    rfl

namespace Run

variable {σ : Type}

/-- A sum of two literals without quotes and backslashes in them is the one text after the other if
the fences of the literals are of different kinds. With fences of the same kind it is one literal
from the first fence to the last, with all that stands between. A list of literals is the sequence
of their texts in every case, and a literal alone stands for its text. -/
theorem fenced_literals_compose (m : Machine σ) :
    (∀ (f f' : Fence) (a b : Text), f.Encloses a → f'.Encloses b →
      (evaluate (Eval.value (joined (f.around a) .add (f'.around b)))).run.run m =
        (.ok (.string (if f = f' then a ++ (f.marks ++ (" + ".toList ++ (f.marks ++ b)))
          else a ++ b)), m)) ∧
    ∀ literals : List (Fence × Text), (∀ l ∈ literals, l.1.Encloses l.2) →
      (evaluate (Eval.value
          ('[' :: (join [',', ' '] (literals.map fun l => l.1.around l.2) ++ [']'])))).run.run m =
        (newSequence (literals.map fun l => .string l.2)).run.run m := by
  constructor
  · intro f f' a b ha hb
    rw [Eval.value, Fence.ofText_joined ha hb]
    split
    · rfl
    · show (Except.ok (m.store.applyOperator (.string a) .add (.string b)), m) = _
      rw [Store.applyOperator_strings]
  · intro literals h
    rw [Eval.value, Fence.ofText_listed h, Expr.eval, Expr.evalAll_texts]
    rfl

theorem fenced_literals_compose_letters :
    (evaluate (Eval.value "\"\"\"a\"\"\" + \"\"\"b\"\"\"".toList)).run.run Machine.unused =
        (.ok (.string "a\"\"\" + \"\"\"b".toList), .unused) ∧
      (evaluate (Eval.value "\"\"\"a\"\"\" + '''b'''".toList)).run.run Machine.unused =
        (.ok (.string "ab".toList), .unused) ∧
      (evaluate (Eval.value "[\"\"\"a\"\"\", \"\"\"b\"\"\"]".toList)).run.run Machine.unused =
        (newSequence [.string "a".toList, .string "b".toList]).run.run .unused := by
  obtain ⟨hsum, hlist⟩ := fenced_literals_compose Machine.unused
  refine ⟨?_, ?_, ?_⟩
  · exact hsum .double .double "a".toList "b".toList (by decide) (by decide)
  · exact hsum .double .single "a".toList "b".toList (by decide) (by decide)
  · exact hlist [(.double, "a".toList), (.double, "b".toList)] (by decide)

end Run

end Grimoire
