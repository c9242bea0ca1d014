import Grimoire.Proofs.ReadBack
import Grimoire.Proofs.Replacements
import Grimoire.Proofs.Shuffles

/-!
# Lines of texts

A text is fractured at its line feeds, and of each piece a carriage return at its end is left out.
Lines that have neither a line feed nor a carriage return at the end come out again when they have
been joined. A text comes out again when its lines are joined, but for the carriage returns before a
line feed and at the end.
-/

namespace Grimoire

namespace Text

variable {a b s line : Text} {lines : List Text}

/-! ## Carriage returns -/

/-- The lines of a text, when a line feed stands between two of them. -/
def fractured (s : Text) : List Text :=
  (splitOn '\n' s).map dropReturn

theorem fractured_ne_nil (s : Text) : fractured s ≠ [] := by
  obtain ⟨more, hsplit, -⟩ := exists_splitOn_eq '\n' s
  rw [fractured, hsplit]
  exact List.cons_ne_nil _ _

/-- Whether a text is at the end of a line: it is empty or begins with a line feed. -/
def atLineEnd : Text → Bool
  | [] => true
  | c :: _ => c = '\n'

/-- A text without the carriage returns that stand directly before a line feed or at the end. -/
def withoutReturns : Text → Text
  | [] => []
  | c :: rest =>
    if c = '\r' ∧ atLineEnd rest then withoutReturns rest else c :: withoutReturns rest

theorem length_withoutReturns_le (s : Text) : (withoutReturns s).length ≤ s.length := by
  induction s with
  | nil => exact Nat.le_refl 0
  | cons c rest ih =>
    rw [withoutReturns]
    split
    · exact Nat.le_succ_of_le ih
    · exact Nat.succ_le_succ ih

/-- Nothing is left out of a text exactly if no carriage return stands at the end of a line. -/
theorem withoutReturns_eq_self_iff :
    withoutReturns s = s ↔ ∀ before after, s = before ++ '\r' :: after → atLineEnd after = false := by
  induction s with
  | nil => simp [withoutReturns]
  | cons c rest ih =>
    rw [withoutReturns]
    split
    · next hreturn =>
      obtain ⟨rfl, hend⟩ := hreturn
      constructor
      · intro hself
        have hlength := length_withoutReturns_le rest
        rw [hself, List.length_cons] at hlength
        omega
      · intro hnone
        rw [hnone [] rest rfl] at hend
        cases hend
    · next hkept =>
      rw [List.cons_inj_right, ih]
      constructor
      · intro hrest before after hsplit
        cases before with
        | nil =>
          cases hsplit
          simpa using hkept
        | cons d before => exact hrest before after (List.cons.inj hsplit).2
      · exact fun hall before after hsplit => hall (c :: before) after (congrArg (c :: ·) hsplit)

theorem dropReturn_of_getLast?_ne (h : line.getLast? ≠ some '\r') : dropReturn line = line := by
  rw [dropReturn, dropLast?, if_neg h]
  rfl

theorem dropReturn_cons_cons (c d : Char) (s : Text) :
    dropReturn (c :: d :: s) = c :: dropReturn (d :: s) := by
  rw [dropReturn, dropReturn, dropLast?, dropLast?, List.getLast?_cons_cons]
  split <;> rfl

/-- Of a line, the carriage return at its end is left out. -/
theorem withoutReturns_append (ha : '\n' ∉ a) (hb : atLineEnd b = true) :
    withoutReturns (a ++ b) = dropReturn a ++ withoutReturns b := by
  induction a with
  | nil => rfl
  | cons c a ih =>
    rw [List.mem_cons, not_or] at ha
    cases a with
    | nil =>
      rw [List.cons_append, List.nil_append, withoutReturns, hb]
      by_cases hc : c = '\r'
      · subst hc
        rfl
      · rw [if_neg (by simp [hc]), dropReturn_of_getLast?_ne (by simpa using hc)]
        rfl
    | cons d a =>
      have hd : atLineEnd (d :: (a ++ b)) = false := by
        have hne : d ≠ '\n' := fun hd => ha.2 (hd ▸ List.mem_cons_self)
        simpa [atLineEnd] using hne
      rw [List.cons_append, List.cons_append, withoutReturns, hd, if_neg (by simp),
        dropReturn_cons_cons]
      exact congrArg (c :: ·) (ih ha.2)

/-! ## Both ways -/

theorem splitOn_join {sep : Char} (hne : lines ≠ []) (h : ∀ line ∈ lines, sep ∉ line) :
    splitOn sep (join [sep] lines) = lines := by
  induction lines with
  | nil => exact absurd rfl hne
  | cons line more ih =>
    obtain ⟨hline, hmore⟩ := List.forall_mem_cons.1 h
    have hall : ∀ c ∈ line, c ≠ sep := List.forall_mem_ne'.2 hline
    by_cases hnil : more = []
    · subst hnil
      rw [join, List.intercalate_singleton, splitOn_eq_singleton hall]
    · rw [join_cons _ _ hnil, List.append_assoc, List.singleton_append, splitOn_append_cons hall,
        ih hnil hmore]

/-- Joined lines are fractured to what they were. -/
theorem fractured_join (hne : lines ≠ [])
    (h : ∀ line ∈ lines, '\n' ∉ line ∧ line.getLast? ≠ some '\r') :
    fractured (join ['\n'] lines) = lines := by
  rw [fractured, splitOn_join hne fun line hline => (h line hline).1]
  exact (List.map_congr_left fun line hline =>
    dropReturn_of_getLast?_ne (h line hline).2).trans (List.map_id lines)

/-- The lines of a text are joined to the text without carriage returns at the ends of lines. -/
theorem join_fractured (s : Text) : join ['\n'] (fractured s) = withoutReturns s := by
  induction hlength : s.length using Nat.strongRecOn generalizing s with
  | ind length ih =>
    by_cases hfeed : '\n' ∈ s
    · obtain ⟨a, b, rfl, ha⟩ := List.eq_append_cons_of_mem hfeed
      have hsplit : fractured (a ++ '\n' :: b) = dropReturn a :: fractured b := by
        rw [fractured, splitOn_append_cons (List.forall_mem_ne'.2 ha)]
        rfl
      have hrest : withoutReturns ('\n' :: b) = '\n' :: withoutReturns b := rfl
      have hb : b.length < length := by
        rw [← hlength, List.length_append, List.length_cons]
        omega
      rw [hsplit, join_cons _ _ (fractured_ne_nil b), ih b.length hb b rfl,
        withoutReturns_append ha rfl, hrest, List.append_assoc]
      rfl
    · have hlast : withoutReturns (s ++ []) = dropReturn s ++ [] := withoutReturns_append hfeed rfl
      rw [List.append_nil, List.append_nil] at hlast
      rw [fractured, splitOn_eq_singleton (List.forall_mem_ne'.2 hfeed), hlast]
      exact List.intercalate_singleton

end Text

namespace Store

theorem joinDisplay_strings (s : Store) (separator : Text) (texts : List Text) :
    s.joinDisplay separator (texts.map .string) = Text.join separator texts := by
  have hshown : ∀ text ∈ texts,
      (if Value.string text = .undefined then [] else s.display (.string text)) = id text :=
    fun text _ => (if_neg (by simp)).trans (s.display_string text)
  rw [joinDisplay, List.map_map]
  exact congrArg (Text.join separator) ((List.map_congr_left hshown).trans (List.map_id texts))

end Store

/-! ## Statements -/

namespace Run

open Text

variable {σ : Type} [Host σ] {m m₁ : Machine σ} {line : Text} {g : Groups} {cell : Nat} {v : Value}

/-- A statement binds the lines of what a value is displayed as. -/
theorem run_statement_fractureLines (hform : Form.find? line = some (.computation .fractureLines, g))
    (hvalue : (evaluate (g.value 1)).run.run m = (.ok v, m₁)) :
    ∃ made m',
      Deals m₁.resources ((fractured (m₁.store.display v)).map .string) m₁.stream
        (.ok made, m'.resources) ∧
      m'.scope = m.scope ∧ (statement line).run.run m = (bindName (g.text 2) made).run.run m' := by
  have hlines : (evaluate (Computation.value .fractureLines g)).run.run m =
      (newSequence ((fractured (m₁.store.display v)).map .string)).run.run m₁ := by
    rw [fractured, List.map_map]
    rw [Computation.value, Computation.linesOf, run_display_bind hvalue]
    rfl
  have hbinds := binds_of_computation (Form.isIdle_of_find? (by decide) (by decide) hform) hform
    hlines
  exact ⟨_, _, deals_newSequence m₁.resources _ _, hbinds.succeeds _ _ rfl⟩

/-- A statement binds the text of which an array holds the lines. -/
theorem run_statement_bindLines {lines : List Text}
    (hform : Form.find? line = some (.computation .bindLines, g))
    (hvalue : (evaluate (g.value 1)).run.run m = (.ok (.sequence cell), m₁))
    (hitems : m₁.store.items cell = lines.map .string) :
    (statement line).run.run m = (bindName (g.text 2) (.string (join ['\n'] lines))).run.run m₁ := by
  apply run_statement_of_value (Form.isIdle_of_find? (by decide) (by decide) hform) hform
  rw [Computation.value, Computation.joinedLines, run_items_bind hvalue,
    ← m₁.store.joinDisplay_strings, ← hitems]
  rfl

/-- Lines that are joined are fractured to the same lines, if there is one, and none of them has a
line feed or a carriage return at its end. The lines of any text are joined to the text without the
carriage returns that stand directly before a line feed or at the end, which is the text itself
exactly if it has none there. One statement joins the strings of an array in this way, and another
one fractures what a value is displayed as. -/
theorem fracturing_and_joining_agree :
    (∀ lines : List Text, lines ≠ [] →
      (∀ line ∈ lines, '\n' ∉ line ∧ line.getLast? ≠ some '\r') →
      fractured (join ['\n'] lines) = lines) ∧
    (∀ s : Text, join ['\n'] (fractured s) = withoutReturns s ∧
      (withoutReturns s = s ↔
        ∀ before after, s = before ++ '\r' :: after → atLineEnd after = false)) ∧
    (∀ (m m₁ : Machine σ) line g cell lines,
      Form.find? line = some (.computation .bindLines, g) →
      (evaluate (g.value 1)).run.run m = (.ok (.sequence cell), m₁) →
      m₁.store.items cell = lines.map .string →
      (statement line).run.run m =
        (bindName (g.text 2) (.string (join ['\n'] lines))).run.run m₁) ∧
    ∀ (m m₁ : Machine σ) line g v, Form.find? line = some (.computation .fractureLines, g) →
      (evaluate (g.value 1)).run.run m = (.ok v, m₁) →
      ∃ made m',
        Deals m₁.resources ((fractured (m₁.store.display v)).map .string) m₁.stream
          (.ok made, m'.resources) ∧
        m'.scope = m.scope ∧
        (statement line).run.run m = (bindName (g.text 2) made).run.run m' := by
  refine ⟨?_, ?_, ?_, ?_⟩
  · exact fun lines hne hlines => fractured_join hne hlines
  · exact fun s => ⟨join_fractured s, withoutReturns_eq_self_iff⟩
  · exact fun m m₁ line g cell lines hform hvalue hitems =>
      run_statement_bindLines hform hvalue hitems
  · exact fun m m₁ line g v hform hvalue => run_statement_fractureLines hform hvalue

/-- A machine with an array of lines, one of them empty, and a text that ends lines twice over. -/
def threeLines : Machine Transcript :=
  .afterCalls {} default {}
    [.execute "xs is [\"a\", \"\", \"b\"] ok".toList,
      .execute "t is \"a\\r\\n\\nb\\r\\r\" ok".toList]

/-- A line that joins the lines. -/
def joining : Text := "BindLines xs into u ok".toList

/-- The places of the operand and of the name in that line. -/
def joiningGroups : Groups :=
  ⟨joining, [(2, ⟨18, 19⟩), (1, ⟨10, 12⟩)]⟩

/-- A line that fractures the text. -/
def fracturing : Text := "FractureLines t into ys ok".toList

/-- The places of the operand and of the name in that line. -/
def fracturingGroups : Groups :=
  ⟨fracturing, [(2, ⟨21, 23⟩), (1, ⟨14, 15⟩)]⟩

theorem fracturing_and_joining_agree_threeLines :
    fractured "a\n\nb".toList = ["a".toList, [], "b".toList] ∧
      (statement joining).run.run threeLines =
        (bindName "u".toList (.string "a\n\nb".toList)).run.run threeLines ∧
      ((statement fracturing).run.run threeLines).2.store.items 1 =
        [.string "a".toList, .string [], .string "b\r".toList] := by
  have hxs : (evaluate (joiningGroups.value 1)).run.run threeLines =
      (.ok (.sequence 0), threeLines) :=
    run_value_of_bound (by decide +kernel) (by decide +kernel)
  have ht : (evaluate (fracturingGroups.value 1)).run.run threeLines =
      (.ok (.string "a\r\n\nb\r\r".toList), threeLines) :=
    run_value_of_bound (by decide +kernel) (by decide +kernel)
  obtain ⟨hlines, -, hjoin, hfracture⟩ := fracturing_and_joining_agree (σ := Transcript)
  refine ⟨?_, ?_, ?_⟩
  · exact hlines ["a".toList, [], "b".toList] (by decide) (by decide)
  · exact hjoin threeLines threeLines joining joiningGroups 0 ["a".toList, [], "b".toList]
      (by decide +kernel) hxs (by decide +kernel)
  · obtain ⟨made, m', hdeals, hscope, hrun⟩ := hfracture threeLines threeLines fracturing
      fracturingGroups _ (by decide +kernel) ht
    have hopen : m'.scope.isSealed (fracturingGroups.text 2) = false := by
      rw [hscope]
      decide +kernel
    have hsize : threeLines.resources.store.sequences.size = 1 := by decide +kernel
    have hdealt := hdeals.items
    rw [hsize, Store.display_string] at hdealt
    rw [hrun, run_bindName_of_open hopen]
    exact hdealt

end Run

end Grimoire
