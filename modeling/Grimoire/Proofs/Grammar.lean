import Grimoire.Expr.Evaluation
import Grimoire.Proofs.Atoms
import Grimoire.Proofs.Evaluation

/-!
# The grammar of expressions

A term is a tree of literals, variables, containers and operators. Its text is written with
parentheses around an operand that an operator would otherwise take apart. The reader, which has no
grammar and splits texts by scanning them, finds in the text of a term the term again, and so the
text has the value of the tree.
-/

namespace Grimoire

/-! ## Terms -/

/-- A numeral. -/
abbrev Numeral := {s : Text // s.isNumeral = true}

/-- A word for a truth value. -/
abbrev TruthWord := {s : Text // s.isTrueWord = true ∨ s.isFalseWord = true}

/-- A name that a variable can have: an identifier that is no word for a truth value. -/
abbrev VariableName :=
  {s : Text // s.isIdentifier = true ∧ s.isTrueWord = false ∧ s.isFalseWord = false}

/-- A key as it is written in a tome: not empty, and without quotes and backslashes. -/
abbrev PlainKey := {s : Text // s.IsKey}

/-- A tree of the expression grammar. -/
inductive Term where
  | number (numeral : Numeral)
  | boolean (word : TruthWord)
  | string (s : Text)
  | name (x : VariableName)
  | sequence (items : List Term)
  | tome (entries : List (PlainKey × Term))
  | binary (left : Term) (op : Operator) (right : Term)
  /-- A term in parentheses, which may stand where they are not needed. -/
  | group (inner : Term)

namespace Term

mutual

/-- The text of a term beside an operator that binds so tightly. The operands of an operator that
binds less tightly come into parentheses; those to the right of an operator also when it binds
equally tightly. -/
def text : Term → Nat → Text
  | number numeral, _ => numeral.1
  | boolean word, _ => word.1
  | string s, _ => Text.literal s
  | name x, _ => x.1
  | sequence items, _ => '[' :: (Text.join [',', ' '] (texts items) ++ [']'])
  | tome entries, _ =>
    Text.tomeText ([' '] ++ (Text.join [',', ' '] ((pairs entries).map Text.entryText) ++ [' ']))
  | binary left op right, tightness =>
    let joined := Text.joined (text left op.tightness) op (text right (op.tightness + 1))
    if tightness ≤ op.tightness then joined else '(' :: (joined ++ [')'])
  | group inner, _ => '(' :: (text inner 0 ++ [')'])

/-- The texts of the elements of a sequence. -/
def texts : List Term → List Text
  | [] => []
  | t :: rest => text t 0 :: texts rest

/-- The keys of the entries of a tome and the texts of their values. -/
def pairs : List (PlainKey × Term) → List (Text × Text)
  | [] => []
  | (key, t) :: rest => (key.1, text t 0) :: pairs rest

end

mutual

/-- The variables of a term. -/
def names : Term → List Text
  | number _ | boolean _ | string _ => []
  | name x => [x.1]
  | sequence items => namesOfAll items
  | tome entries => namesOfEntries entries
  | binary left _ right => names left ++ names right
  | group inner => names inner

/-- The variables of several terms. -/
def namesOfAll : List Term → List Text
  | [] => []
  | t :: rest => names t ++ namesOfAll rest

/-- The variables of the entries of a tome. -/
def namesOfEntries : List (PlainKey × Term) → List Text
  | [] => []
  | (_, t) :: rest => names t ++ namesOfEntries rest

end

variable (scope : Scope)

mutual

/-- The value of a term by its structure, with the store that holds the containers. -/
def value : Term → Store → Value × Store
  | number numeral, s => (.number numeral.1.numeralValue, s)
  | boolean word, s => (.boolean word.1.isTrueWord, s)
  | string text, s => (.string text, s)
  | name x, s => ((scope.lookup? x.1).getD .undefined, s)
  | sequence items, s =>
    let (vs, s) := values items s
    s.newSequence vs
  | tome entries, s =>
    let (vs, s) := valuesOfEntries entries s
    s.newTome (.ofList vs)
  | binary left op right, s =>
    let (a, s) := value left s
    let (b, s) := value right s
    (s.applyOperator a op b, s)
  | group inner, s => value inner s

/-- The values of several terms, from left to right. -/
def values : List Term → Store → List Value × Store
  | [], s => ([], s)
  | t :: rest, s =>
    let (v, s) := value t s
    let (vs, s) := values rest s
    (v :: vs, s)

/-- The keys and values of the entries of a tome. -/
def valuesOfEntries : List (PlainKey × Term) → Store → List (Text × Value) × Store
  | [], s => ([], s)
  | (key, t) :: rest, s =>
    let (v, s) := value t s
    let (vs, s) := valuesOfEntries rest s
    ((key.1, v) :: vs, s)

end

mutual

/-- The expression that a term stands for. -/
def expr : Term → Expr
  | number numeral => .number numeral.1.numeralValue
  | boolean word => .boolean word.1.isTrueWord
  | string s => .text s
  | name x => .path x.1 []
  | sequence items => .sequence (exprs items)
  | tome entries => .tome (exprsOfEntries entries)
  | binary left op right => .binary (expr left) op (expr right)
  | group inner => expr inner

/-- The expressions of several terms. -/
def exprs : List Term → List Expr
  | [] => []
  | t :: rest => expr t :: exprs rest

/-- The keys and expressions of the entries of a tome. -/
def exprsOfEntries : List (PlainKey × Term) → List (Text × Expr)
  | [] => []
  | (key, t) :: rest => (key.1, expr t) :: exprsOfEntries rest

end

end Term

/-! ## Texts of terms -/

namespace Term

open Text

theorem atom_of_isIdentifier {s : Text} (h : s.isIdentifier = true) : Atom s := by
  refine .word ?_ fun c hc => isWord_of_isIdentifier h hc
  rintro rfl
  cases h

theorem balanced_tomeInside {entries : List (Text × Text)}
    (h : ∀ entry ∈ entries, IsKey entry.1 ∧ Piece entry.2) :
    Balanced ([' '] ++ (join [',', ' '] (entries.map entryText) ++ [' '])) := by
  have hblank : Balanced [' '] := balanced_singleton (by decide)
  refine hblank.append (Balanced.append (balanced_join fun s hs => ?_) hblank)
  obtain ⟨entry, hentry, rfl⟩ := List.mem_map.1 hs
  exact (piece_entryText (h entry hentry).2).balanced

mutual

/-- At the top level of the text of a term stand only operators that bind tightly enough. -/
theorem rendering_text : ∀ (t : Term) (tightness : Nat), Rendering tightness (t.text tightness)
  | number numeral, tightness => by
    rw [text]
    exact (Atom.numeral numeral.2).rendering tightness
  | boolean word, tightness => by
    rw [text]
    refine (Atom.word (ne_nil_of_isTruthWord word.2) ?_).rendering tightness
    intro c hc
    exact isWord_of_isLower_foldCase (isLower_of_isTruthWord word.2 hc)
  | string s, tightness => by
    rw [text]
    exact (Atom.literal s).rendering tightness
  | name x, tightness => by
    rw [text]
    exact (atom_of_isIdentifier x.2.1).rendering tightness
  | sequence items, tightness => by
    rw [text]
    have hinner := balanced_join fun s hs => (piece_texts items s hs).balanced
    exact (Atom.sequence hinner).rendering tightness
  | tome entries, tightness => by
    rw [text]
    exact (Atom.tome (balanced_tomeInside (piece_pairs entries))).rendering tightness
  | binary left op right, tightness => by
    have hleft := rendering_text left op.tightness
    have hright := rendering_text right (op.tightness + 1)
    rw [text]
    by_cases htight : tightness ≤ op.tightness
    · rw [if_pos htight]
      exact hleft.joined hright htight
    · -- between parentheses the operator is not at the top level any more
      rw [if_neg htight]
      have hinner := hleft.joined hright (Nat.le_refl op.tightness)
      exact (Atom.group hinner.balanced).rendering tightness
  | group inner, tightness => by
    rw [text]
    exact (Atom.group (rendering_text inner 0).balanced).rendering tightness

theorem piece_texts : ∀ (items : List Term), ∀ s ∈ texts items, Piece s
  | [], s, hs => by
    rw [texts] at hs
    cases hs
  | t :: rest, s, hs => by
    rw [texts, List.mem_cons] at hs
    rcases hs with rfl | hs
    · exact (rendering_text t 0).toPiece
    · exact piece_texts rest s hs

theorem piece_pairs : ∀ (entries : List (PlainKey × Term)),
    ∀ pair ∈ pairs entries, IsKey pair.1 ∧ Piece pair.2
  | [], pair, hpair => by
    rw [pairs] at hpair
    cases hpair
  | (key, t) :: rest, pair, hpair => by
    rw [pairs, List.mem_cons] at hpair
    rcases hpair with rfl | hpair
    · exact ⟨key.2, (rendering_text t 0).toPiece⟩
    · exact piece_pairs rest pair hpair

end

/-! ## Reading the texts of terms -/

theorem ofText_eq_of_layer {s : Text} {layer : Layer} (hs : Firm s) (h : Layer.of s = layer) :
    Expr.ofText s = layer.assemble Expr.ofText := by
  rw [Expr.ofText_eq_assemble, hs.trim_self, h]

mutual

/-- The reader finds a term in its text. -/
theorem ofText_text : ∀ (t : Term) (tightness : Nat), Expr.ofText (t.text tightness) = t.expr
  | number numeral, tightness => by
    have hfirm := (rendering_text (number numeral) tightness).firm
    rw [text] at hfirm ⊢
    rw [ofText_eq_of_layer hfirm (Layer.of_numeral numeral.2), expr]
    rfl
  | boolean word, tightness => by
    have hfirm := (rendering_text (boolean word) tightness).firm
    rw [text] at hfirm ⊢
    rw [ofText_eq_of_layer hfirm (Layer.of_truthWord word.2), expr]
    rfl
  | string s, tightness => by
    have hfirm := (rendering_text (string s) tightness).firm
    rw [text] at hfirm ⊢
    rw [ofText_eq_of_layer hfirm (Layer.of_literal s), expr]
    rfl
  | name x, tightness => by
    have hfirm := (rendering_text (name x) tightness).firm
    rw [text] at hfirm ⊢
    rw [ofText_eq_of_layer hfirm (Layer.of_identifier x.2.1 x.2.2.1 x.2.2.2), expr]
    rfl
  | sequence items, tightness => by
    have hfirm := (rendering_text (sequence items) tightness).firm
    have hpieces := piece_texts items
    have hinner := balanced_join fun s hs => (hpieces s hs).balanced
    rw [text] at hfirm ⊢
    rw [ofText_eq_of_layer hfirm (Layer.of_sequence hinner), topLevelPieces_join_self hpieces,
      Layer.assemble, map_ofText_texts items, expr]
  | tome entries, tightness => by
    have hfirm := (rendering_text (tome entries) tightness).firm
    have hpairs := piece_pairs entries
    rw [text] at hfirm ⊢
    rw [ofText_eq_of_layer hfirm (Layer.of_tome (balanced_tomeInside hpairs)), tomePairs_join hpairs,
      Layer.assemble, map_ofText_pairs entries, expr]
  | binary left op right, tightness => by
    have hleft := rendering_text left op.tightness
    have hright := rendering_text right (op.tightness + 1)
    have hjoined := hleft.joined hright (Nat.le_refl op.tightness)
    -- with parentheses around it or not, the reader comes to the two operands and the operator
    have hread : Expr.ofText (joined (left.text op.tightness) op (right.text (op.tightness + 1)))
        = (binary left op right).expr := by
      rw [ofText_eq_of_layer hjoined.firm (Layer.of_joined hleft hright), Layer.assemble,
        ofText_text left, ofText_text right, expr]
    rw [text]
    by_cases htight : tightness ≤ op.tightness
    · rw [if_pos htight]
      exact hread
    · have hgroup := (Atom.group hjoined.balanced).rendering tightness
      rw [if_neg htight, ofText_eq_of_layer hgroup.firm (Layer.of_group hjoined.balanced)]
      exact hread
  | group inner, tightness => by
    have hinner := (rendering_text inner 0).balanced
    have hfirm := (rendering_text (group inner) tightness).firm
    rw [text] at hfirm ⊢
    rw [ofText_eq_of_layer hfirm (Layer.of_group hinner), Layer.assemble, ofText_text inner, expr]

theorem map_ofText_texts : ∀ items : List Term, (texts items).map Expr.ofText = exprs items
  | [] => by
    rw [texts, exprs]
    rfl
  | t :: rest => by
    rw [texts, exprs, List.map_cons, ofText_text t, map_ofText_texts rest]

theorem map_ofText_pairs : ∀ entries : List (PlainKey × Term),
    (pairs entries).map (fun pair => (pair.1, Expr.ofText pair.2)) = exprsOfEntries entries
  | [] => by
    rw [pairs, exprsOfEntries]
    rfl
  | (key, t) :: rest => by
    rw [pairs, exprsOfEntries, List.map_cons, ofText_text t, map_ofText_pairs rest]

end

/-! ## Evaluating terms -/

section Evaluation

variable {α β : Type} {scope : Scope}

theorem run_bind_of_ok {e : Eval α} {f : α → Eval β} {r r' : Resources} {a : α}
    (h : (e.run scope).run.run r = (.ok a, r')) :
    ((e >>= f).run scope).run.run r = ((f a).run scope).run.run r' := by
  have hrun : ((e >>= f).run scope).run.run r = _ :=
    run_bind (e.run scope) (fun a => (f a).run scope) r
  rw [hrun, h]

/-- Whether a scope has the variables. -/
def Binds (scope : Scope) (names : List Text) : Prop :=
  ∀ name ∈ names, (scope.lookup? name).isSome = true

theorem binds_append {first second : List Text} :
    Binds scope (first ++ second) ↔ Binds scope first ∧ Binds scope second :=
  List.forall_mem_append

mutual

/-- The expression of a term has the value of the term. -/
theorem run_eval : ∀ (t : Term) (r : Resources), Binds scope t.names →
    (t.expr.eval.run scope).run.run r
      = (.ok (t.value scope r.store).1, { r with store := (t.value scope r.store).2 })
  | number _, r, _ | boolean _, r, _ | string _, r, _ => by
    rw [expr, Expr.eval, value]
    rfl
  | name x, r, hbinds => by
    rw [names] at hbinds
    obtain ⟨v, hv⟩ := Option.isSome_iff_exists.1 (hbinds x.1 List.mem_cons_self)
    have hfollow : scope.follow r.store x.1 [] = v := by
      simp only [Scope.follow, hv, List.foldl_nil]
    rw [expr, Expr.eval, value, hv, Option.getD_some, ← hfollow]
    rfl
  | sequence items, r, hbinds => by
    rw [names] at hbinds
    rw [expr, Expr.eval, value, run_bind_of_ok (run_evalAll items r hbinds)]
    rfl
  | tome entries, r, hbinds => by
    rw [names] at hbinds
    rw [expr, Expr.eval, value, run_bind_of_ok (run_evalEntries entries r hbinds)]
    rfl
  | binary left op right, r, hbinds => by
    rw [names, binds_append] at hbinds
    rw [expr, Expr.eval, value, run_bind_of_ok (run_eval left r hbinds.1),
      run_bind_of_ok (run_eval right _ hbinds.2)]
    rfl
  | group inner, r, hbinds => by
    rw [names] at hbinds
    rw [expr, value]
    exact run_eval inner r hbinds

theorem run_evalAll : ∀ (items : List Term) (r : Resources), Binds scope (namesOfAll items) →
    ((Expr.evalAll (exprs items)).run scope).run.run r
      = (.ok (values scope items r.store).1,
        { r with store := (values scope items r.store).2 })
  | [], r, _ => by
    rw [exprs, Expr.evalAll, values]
    rfl
  | t :: rest, r, hbinds => by
    rw [namesOfAll, binds_append] at hbinds
    rw [exprs, Expr.evalAll, values, run_bind_of_ok (run_eval t r hbinds.1),
      run_bind_of_ok (run_evalAll rest _ hbinds.2)]
    rfl

theorem run_evalEntries : ∀ (entries : List (PlainKey × Term)) (r : Resources),
    Binds scope (namesOfEntries entries) →
    ((Expr.evalEntries (exprsOfEntries entries)).run scope).run.run r
      = (.ok (valuesOfEntries scope entries r.store).1,
        { r with store := (valuesOfEntries scope entries r.store).2 })
  | [], r, _ => by
    rw [exprsOfEntries, Expr.evalEntries, valuesOfEntries]
    rfl
  | (key, t) :: rest, r, hbinds => by
    rw [namesOfEntries, binds_append] at hbinds
    rw [exprsOfEntries, Expr.evalEntries, valuesOfEntries, run_bind_of_ok (run_eval t r hbinds.1),
      run_bind_of_ok (run_evalEntries rest _ hbinds.2)]
    rfl

end

/-- The text of a term has the value of the term: whatever stands in strings, brackets and keys, the
recognisers and splits take the text apart as the tree is built. -/
theorem run_value_text (t : Term) (tightness : Nat) (r : Resources)
    (hbinds : ∀ name ∈ t.names, (scope.lookup? name).isSome = true) :
    ((Eval.value (t.text tightness)).run scope).run.run r
      = (.ok (t.value scope r.store).1, { r with store := (t.value scope r.store).2 }) := by
  rw [Eval.value, ofText_text]
  exact run_eval t r hbinds

/-- A scope with one variable. -/
def hoardScope : Scope where
  globals := Table.empty.insert "hoard".toList (.number 3)

/-- A product of a variable and a sum with a string in it. -/
def hoardTerm : Term :=
  .binary (.name ⟨"hoard".toList, by decide⟩) .multiply
    (.binary (.number ⟨"1".toList, by decide⟩) .add (.string ") + \"[,".toList))

/-- The marks in the string are no brackets, commas or operators of the term. -/
theorem run_value_hoardTerm :
    let r : Resources := ⟨{}, ⟨1⟩, .empty, default⟩
    hoardTerm.text 0 = "hoard * (1 + \") + \\\"[,\")".toList ∧
      (∀ name ∈ hoardTerm.names, (hoardScope.lookup? name).isSome = true) ∧
      ((Eval.value (hoardTerm.text 0)).run hoardScope).run.run r
        = (.ok (hoardTerm.value hoardScope r.store).1,
          { r with store := (hoardTerm.value hoardScope r.store).2 }) := by
  have hbinds : ∀ name ∈ hoardTerm.names, (hoardScope.lookup? name).isSome = true := by decide
  exact ⟨by decide, hbinds, run_value_text hoardTerm 0 _ hbinds⟩

end Evaluation

end Term

end Grimoire
