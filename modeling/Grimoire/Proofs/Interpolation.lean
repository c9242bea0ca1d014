import Grimoire.Proofs.Endings

/-!
# Interpolation

A revealed text is plain text with expressions in markers. If no plain part has an opening marker in
it and no expression a closing one, the pieces that are read are those that were written, whatever
braces and bars stand beside the markers. So the line evaluates the expressions one after the other
and asks once to show the text in which each has given way to its display text, or it fails as the
first expression that fails.
-/

namespace Grimoire

open Text

namespace Pattern

variable {p : Pattern} {text after : Text} {g : Groups}

/-- A match of the start of a text is one of the whole text with anything behind it. -/
theorem match?_of_matchStart? (h : p.matchStart? text = some (g, after)) :
    (andThen p (.run .any 0 .longest)).match? text = some g := by
  rw [matchStart?, Option.map_eq_some_iff] at h
  obtain ⟨t, hfirst, hmatch⟩ := h
  obtain ⟨rfl, rfl⟩ := Prod.mk.inj hmatch
  obtain ⟨more, hways⟩ := List.head?_eq_some_iff.1 hfirst
  have hsome : ((t.takeRun .any 0 .longest).find? (·.rest.isEmpty)).isSome = true := by
    refine List.find?_isSome.2 ⟨⟨t.place + t.rest.length, [], t.spans⟩, ?_, rfl⟩
    exact Scan.mem_takeRun.2
      ⟨t.rest, [], (List.append_nil _).symm, Nat.zero_le _, fun _ _ => rfl, rfl⟩
  obtain ⟨u, hu⟩ := Option.isSome_iff_exists.1 hsome
  obtain ⟨taken, left, -, -, -, rfl⟩ := Scan.mem_takeRun.1 (List.mem_of_find?_eq_some hu)
  rw [match?, ways, hways, List.flatMap_cons, ways, List.find?_append, hu]
  rfl

/-- The start that is matched is read by the pattern. -/
theorem exists_takes_of_matchStart? (h : p.matchStart? text = some (g, after)) :
    ∃ taken notes, p.Takes taken notes ∧ text = taken ++ after ∧
      ∀ slot, g.get? slot = notes.lookup slot := by
  rw [matchStart?, Option.map_eq_some_iff] at h
  obtain ⟨t, hfirst, hmatch⟩ := h
  obtain ⟨rfl, rfl⟩ := Prod.mk.inj hmatch
  obtain ⟨taken, notes, htakes, htook⟩ :=
    exists_takes_of_ways (Pattern.within_start text) (List.mem_of_mem_head? hfirst)
  refine ⟨taken, notes, htakes, htook.rest, get?_eq_lookup ?_⟩
  rw [htook.notes]
  exact List.append_nil notes

/-- A text that begins with a reading has a match of its start. -/
theorem exists_matchStart?_of_takes {taken : Text} {notes : Notes} (hp : p.steady = true)
    (h : p.Takes taken notes) (rest : Text) :
    ∃ g after, p.matchStart? (taken ++ rest) = some (g, after) := by
  obtain ⟨t, ht, -⟩ := exists_ways_of_takes hp (Pattern.within_start (taken ++ rest)) h rfl
  obtain ⟨first, more, hways⟩ := List.exists_cons_of_ne_nil (List.ne_nil_of_mem ht)
  exact ⟨⟨_, first.spans⟩, first.rest, by rw [matchStart?, hways]; rfl⟩

end Pattern

namespace Text

variable {s rest : Text}

/-! ## Pairs of characters, and blanks -/

/-- Two characters that stand nowhere in a text do not begin in it, even if the first of them stands
behind it. -/
theorem not_prefix_append {c d : Char} (hne : c ≠ d) (hs : s ≠ []) (hnone : ¬ [c, d] <:+: s)
    (rest : Text) : ¬ [c, d] <+: s ++ c :: rest := by
  rintro ⟨t, ht⟩
  obtain ⟨e, s, rfl⟩ := List.exists_cons_of_ne_nil hs
  obtain ⟨rfl, hrest⟩ := List.cons.inj ht
  cases s with
  | nil => exact hne (List.cons.inj hrest).1.symm
  | cons e s =>
    obtain ⟨rfl, -⟩ := List.cons.inj hrest
    exact hnone (List.prefix_append [c, d] s).isInfix

/-- So where they are found they stand behind the text. -/
theorem length_le_of_pair {c d : Char} (hne : c ≠ d) (hnone : ¬ [c, d] <:+: s) {a b rest : Text}
    (h : s ++ c :: rest = a ++ c :: d :: b) : s.length ≤ a.length := by
  rcases List.append_eq_append_iff.1 h with ⟨x, rfl, -⟩ | ⟨x, rfl, hx⟩
  · rw [List.length_append]
    exact Nat.le_add_right _ _
  · by_cases hnil : x = []
    · rw [hnil, List.append_nil]
    · have hinside : ¬ [c, d] <:+: x := fun hin =>
        hnone (hin.trans (List.suffix_append a x).isInfix)
      exact absurd ⟨b, hx⟩ (not_prefix_append hne hnil hinside rest)

/-- Between blanks a text that begins and ends otherwise is found whole, if no more is taken than
the text and no less than the text with blanks. -/
theorem eq_of_between (hs : Firm s) {a b g after : Text} {c : Char} (hc : isBlank c = false)
    (ha : Blank a) (hg : Blank g) (hle : b.length ≤ s.length)
    (hge : s.length ≤ (a ++ (b ++ g)).length)
    (h : s ++ c :: rest = a ++ (b ++ (g ++ c :: after))) : b = s ∧ after = rest := by
  obtain rfl := hs.eq_nil_of_blank_append ha h
  rw [List.nil_append] at h hge
  obtain ⟨x, rfl⟩ : b <+: s :=
    List.prefix_of_prefix_length_le ⟨_, h.symm⟩ (List.prefix_append s _) hle
  rw [List.append_assoc, List.append_cancel_left_eq] at h
  rw [List.length_append, List.length_append, Nat.add_le_add_iff_left] at hge
  obtain ⟨y, rfl⟩ : x <+: g :=
    List.prefix_of_prefix_length_le ⟨_, h⟩ (List.prefix_append g _) hge
  obtain rfl := hs.eq_nil_of_append_blank fun d hd => hg d (List.mem_append_left y hd)
  rw [List.nil_append] at h hg
  obtain rfl := (firm_singleton hc).eq_nil_of_blank_append hg h
  exact ⟨(List.append_nil b).symm, (List.cons.inj h).2.symm⟩

end Text

namespace Ink

variable {before plain expr rest first s : Text} {marks : List (Text × Text)}

/-! ## Markers -/

/-- An expression between markers. -/
def mark (expr : Text) : Text :=
  "\x7b|".toList ++ (expr ++ "|\x7d".toList)

/-- A text that can stand between markers. -/
structure Markable (expr : Text) : Prop where
  firm : Firm expr
  unclosed : ¬ "|\x7d".toList <:+: expr

theorem takes_marked {notes : Notes} : marked.Takes s notes ↔
    ∃ a b x, s = "\x7b|".toList ++ (a ++ (b ++ (x ++ "|\x7d".toList))) ∧ Blank a ∧ b ≠ [] ∧
      Blank x ∧ notes = [(1, b)] := by
  constructor
  · rintro ⟨w, _, _, _, rfl, rfl, ⟨hw, rfl⟩, a, _, _, _, rfl, rfl, ⟨⟨-, ha⟩, rfl⟩,
      b, _, _, _, rfl, rfl, hb, x, k, _, _, rfl, rfl, ⟨⟨-, hx⟩, rfl⟩, hk, rfl⟩
    obtain ⟨hne, rfl⟩ := Form.takes_shortLines.1 hb
    obtain rfl := eq_of_map_foldCase_eq (by decide) hw
    obtain rfl := eq_of_map_foldCase_eq (by decide) hk
    exact ⟨a, b, x, rfl, ha, hne, hx, rfl⟩
  · rintro ⟨a, b, x, rfl, ha, hne, hx, rfl⟩
    exact ⟨_, _, [], _, rfl, rfl, ⟨rfl, rfl⟩, a, _, [], _, rfl, rfl, ⟨⟨Nat.zero_le _, ha⟩, rfl⟩,
      b, _, _, [], rfl, rfl, Form.takes_shortLines.2 ⟨hne, rfl⟩,
      x, _, [], [], rfl, rfl, ⟨⟨Nat.zero_le _, hx⟩, rfl⟩, rfl, rfl⟩

/-- Of the text between markers the shortest is noted that has a closing marker behind it, and that
is the expression. -/
theorem get?_mark (h : Markable expr) {g : Groups} {after : Text}
    (hmatch : marked.matchStart? (mark expr ++ rest) = some (g, after)) : g.get? 1 = some expr := by
  obtain ⟨notes, hprefers, hget⟩ :=
    Pattern.exists_prefers_of_match? (by rfl) (Pattern.match?_of_matchStart? hmatch)
  have hsteps : (Pattern.andThen marked (.run .any 0 .longest)).steps =
      [.keyword "\x7b|", .space, .shortLines 1, .space, .keyword "|\x7d",
        .run .any 0 .longest] := rfl
  rw [hsteps] at hprefers
  obtain ⟨w, _, _, _, hline, rfl, ⟨hw, rfl⟩, ⟨a, _, _, _, rfl, rfl, ⟨⟨-, ha⟩, rfl⟩,
    ⟨b, _, _, _, rfl, rfl, hb, ⟨x, _, _, _, rfl, rfl, ⟨⟨-, hx⟩, rfl⟩,
      ⟨k, u, _, _, rfl, rfl, ⟨hk, rfl⟩, htail, -⟩, -⟩, hshort⟩, -⟩, -⟩ := hprefers
  obtain ⟨-, rfl⟩ := Pattern.takesAll_singleton.1 htail.takesAll
  obtain ⟨-, rfl⟩ := Form.takes_shortLines.1 hb
  obtain rfl := eq_of_map_foldCase_eq (by decide) hw
  obtain rfl := eq_of_map_foldCase_eq (by decide) hk
  have hrest : expr ++ '|' :: ('\x7d' :: rest) = a ++ (b ++ (x ++ '|' :: ('\x7d' :: u))) := by
    simpa [mark] using hline
  obtain rfl := h.firm.eq_nil_of_blank_append ha hrest
  have hle : b.length ≤ expr.length := by
    refine hshort .shortest rfl expr ("|\x7d".toList ++ rest) hrest.symm
      ⟨_, Form.takes_shortLines.2 ⟨h.firm.ne_nil, rfl⟩⟩ ⟨[], ?_⟩
    exact ⟨[], _, [], [], rfl, rfl, ⟨⟨Nat.zero_le _, blank_nil⟩, rfl⟩, _, rest, [], [], rfl, rfl,
      ⟨rfl, rfl⟩, Pattern.takesAll_singleton.2 ⟨⟨Nat.zero_le _, fun _ _ => rfl⟩, rfl⟩⟩
  have hge : expr.length ≤ (b ++ x).length :=
    length_le_of_pair (by decide) h.unclosed (hrest.trans (List.append_assoc b x _).symm)
  obtain ⟨rfl, -⟩ := eq_of_between h.firm (by decide) blank_nil hx hle hge hrest
  exact hget 1

/-- What is between markers is read as it was written. -/
theorem matchStart?_mark (h : Markable expr) (rest : Text) :
    ∃ g, marked.matchStart? (mark expr ++ rest) = some (g, rest) ∧ g.text 1 = expr := by
  have hmark : marked.Takes (mark expr) [(1, expr)] :=
    takes_marked.2 ⟨[], expr, [], rfl, blank_nil, h.firm.ne_nil, blank_nil, rfl⟩
  obtain ⟨g, after, hmatch⟩ := Pattern.exists_matchStart?_of_takes (by rfl) hmark rest
  have hnoted := get?_mark h hmatch
  obtain ⟨taken, notes, htakes, htext, hget⟩ := Pattern.exists_takes_of_matchStart? hmatch
  obtain ⟨a, b, x, rfl, ha, -, hx, rfl⟩ := takes_marked.1 htakes
  obtain rfl : b = expr := Option.some.inj ((hget 1).symm.trans hnoted)
  have hline : b ++ '|' :: ('\x7d' :: rest) = a ++ (b ++ (x ++ '|' :: ('\x7d' :: after))) := by
    simpa [mark] using htext
  have hge : b.length ≤ (a ++ (b ++ x)).length := by
    rw [← List.append_assoc]
    exact (List.infix_append a b x).length_le
  obtain ⟨-, hafter⟩ := eq_of_between h.firm (by decide) ha hx (Nat.le_refl _) hge hline
  obtain rfl := (List.cons.inj hafter).2
  exact ⟨g, hmatch, by rw [Groups.text, hnoted]; rfl⟩

/-! ## Pieces -/

/-- Plain text up to a marker, and the expression in it. -/
theorem piecesFrom_mark (hplain : ¬ "\x7b|".toList <:+: plain) (h : Markable expr) :
    piecesFrom before (plain ++ (mark expr ++ rest)) =
      .plain (before.reverse ++ plain) :: .expr expr :: piecesFrom [] rest := by
  induction plain generalizing before with
  | nil =>
    obtain ⟨g, hmatch, hexpr⟩ := matchStart?_mark h rest
    have hcons : mark expr ++ rest = '\x7b' :: ('|' :: (expr ++ "|\x7d".toList) ++ rest) := rfl
    rw [hcons] at hmatch
    rw [List.nil_append, List.append_nil, hcons, piecesFrom]
    split
    · next hfound =>
      rw [hmatch] at hfound
      obtain ⟨rfl, rfl⟩ := Prod.mk.inj (Option.some.inj hfound)
      rw [hexpr]
    · next hnone =>
      rw [hmatch] at hnone
      cases hnone
  | cons c plain ih =>
    have hrest : ¬ "\x7b|".toList <:+: plain := fun hin =>
      hplain (hin.trans (List.suffix_cons c plain).isInfix)
    have hstart : marked.matchStart? (c :: (plain ++ (mark expr ++ rest))) = none :=
      matchStart?_marked (not_prefix_append (by decide) (List.cons_ne_nil c plain) hplain
        ('|' :: (expr ++ "|\x7d".toList) ++ rest))
    rw [List.cons_append, piecesFrom]
    split
    · next hmatch =>
      rw [hstart] at hmatch
      cases hmatch
    · rw [ih hrest, List.reverse_cons, List.append_assoc]
      rfl

/-- Text with parts behind it that are followed by text. -/
def woven (first : Text) (parts : List (Text × Text)) : Text :=
  first ++ parts.flatMap fun part => part.1 ++ part.2

/-- Plain text, and then expressions between markers with plain text behind each. -/
def written (first : Text) (marks : List (Text × Text)) : Text :=
  woven first (marks.map fun m => (mark m.1, m.2))

/-- The pieces that expressions with plain text behind each come to. -/
def piecesOf (marks : List (Text × Text)) : List Ink :=
  marks.flatMap fun m => [.expr m.1, .plain m.2]

/-- The pieces of a text are those that it was written from. -/
theorem pieces_written (hfirst : ¬ "\x7b|".toList <:+: first)
    (hmarks : ∀ m ∈ marks, Markable m.1 ∧ ¬ "\x7b|".toList <:+: m.2) :
    pieces (written first marks) = .plain first :: piecesOf marks := by
  unfold pieces
  induction marks generalizing first with
  | nil =>
    have hplain : written first [] = first := List.append_nil first
    rw [hplain, piecesFrom_of_unmarked hfirst]
    rfl
  | cons m marks ih =>
    obtain ⟨hm, hmarks⟩ := List.forall_mem_cons.1 hmarks
    have hsplit : written first (m :: marks) = first ++ (mark m.1 ++ written m.2 marks) := by
      rw [written, woven, List.map_cons, List.flatMap_cons, List.append_assoc]
      rfl
    rw [hsplit, piecesFrom_mark hfirst hm.1, ih hm.2 hmarks]
    rfl

end Ink

/-! ## What is shown -/

namespace Machine

variable {σ : Type} {m m' : Machine σ} {exprs texts : List Text}

/-- Texts are evaluated one after the other, each on the machine that the one before has left, and
each value has its display text there and then. -/
inductive Displays : Machine σ → List Text → List Text → Machine σ → Prop where
  | none (m : Machine σ) : Displays m [] [] m
  | more {m m₁ m₂ : Machine σ} {expr : Text} {v : Value} {exprs texts : List Text}
    (first : (Run.evaluate (Eval.value expr)).run.run m = (.ok v, m₁))
    (rest : Displays m₁ exprs texts m₂) :
    Displays m (expr :: exprs) (m₁.store.display v :: texts) m₂

theorem Displays.host (h : Displays m exprs texts m') : m'.host = m.host := by
  induction h with
  | none => rfl
  | more first _ ih =>
    obtain ⟨r, -, rfl⟩ := Run.exists_of_run_evaluate first
    exact ih

end Machine

namespace Run

variable {σ : Type} {marks : List (Text × Text)}

theorem host_run_evaluate {α : Type} (e : Eval α) (m : Machine σ) :
    ((evaluate e).run.run m).2.host = m.host :=
  rfl

/-- What an expression shows comes before the plain text behind it and what is shown then. -/
theorem run_shownAll_cons (expr plain : Text) (marks : List (Text × Text)) (m : Machine σ) :
    (evaluate (Ink.shownAll (Ink.piecesOf ((expr, plain) :: marks)))).run.run m =
      match (evaluate (Eval.value expr)).run.run m with
      | (.error failure, m₁) => (.error failure, m₁)
      | (.ok v, m₁) =>
        match (evaluate (Ink.shownAll (Ink.piecesOf marks))).run.run m₁ with
        | (.error failure, m₂) => (.error failure, m₂)
        | (.ok rest, m₂) => (.ok (m₁.store.display v ++ (plain ++ rest)), m₂) := by
  have hshown : Ink.shownAll (Ink.piecesOf ((expr, plain) :: marks)) =
      Eval.value expr >>= fun v => (Work.display v : Eval Text) >>= fun first =>
        Ink.shownAll (Ink.piecesOf marks) >>= fun rest => pure (first ++ (plain ++ rest)) := by
    rw [Ink.piecesOf, List.flatMap_cons, List.cons_append, List.cons_append, List.nil_append,
      Ink.shownAll, Ink.shown, Eval.display, Ink.shownAll, Ink.shown, Ink.piecesOf]
    simp only [bind_assoc, pure_bind]
  rw [hshown, evaluate_bind, run_bind]
  rcases (evaluate (Eval.value expr)).run.run m with ⟨failure | v, m₁⟩
  · rfl
  · dsimp only
    rw [evaluate_bind, run_bind]
    show (evaluate (Ink.shownAll (Ink.piecesOf marks) >>= fun rest =>
      pure (m₁.store.display v ++ (plain ++ rest)))).run.run m₁ = _
    rw [evaluate_bind, run_bind]
    rcases (evaluate (Ink.shownAll (Ink.piecesOf marks))).run.run m₁ with ⟨failure | rest, m₂⟩ <;>
      rfl

/-- The text of pieces is computed by evaluating the expressions one after the other, until one
fails. -/
theorem run_shownAll (marks : List (Text × Text)) (m : Machine σ) :
    (∃ texts m', m.Displays (marks.map Prod.fst) texts m' ∧
      (evaluate (Ink.shownAll (Ink.piecesOf marks))).run.run m =
        (.ok (Ink.woven [] (texts.zip (marks.map Prod.snd))), m')) ∨
    (∃ done expr later texts m₁ failure m₂, marks.map Prod.fst = done ++ expr :: later ∧
      m.Displays done texts m₁ ∧
      (evaluate (Eval.value expr)).run.run m₁ = (.error failure, m₂) ∧
      (evaluate (Ink.shownAll (Ink.piecesOf marks))).run.run m = (.error failure, m₂)) := by
  induction marks generalizing m with
  | nil => exact .inl ⟨[], m, .none m, rfl⟩
  | cons mark marks ih =>
    obtain ⟨expr, plain⟩ := mark
    rw [run_shownAll_cons]
    rcases hvalue : (evaluate (Eval.value expr)).run.run m with ⟨failure | v, m₁⟩
    · exact .inr ⟨[], expr, marks.map Prod.fst, [], m, failure, m₁, rfl, .none m, hvalue, rfl⟩
    · rcases ih m₁ with ⟨texts, m₂, hdisplays, hrun⟩ |
        ⟨done, other, later, texts, m₂, failure, m₃, hsplit, hdisplays, hfail, hrun⟩
      · refine .inl ⟨_, m₂, .more hvalue hdisplays, ?_⟩
        dsimp only
        rw [hrun]
        simp [Ink.woven]
      · refine .inr ⟨expr :: done, other, later, _, m₂, failure, m₃, ?_, .more hvalue hdisplays,
          hfail, ?_⟩
        · rw [List.map_cons, hsplit, List.cons_append]
        · dsimp only
          rw [hrun]

/-- A revealed text is asked to be shown once its expressions have been evaluated. -/
theorem run_statement_revealing [Host σ] {line first : Text} {found : Groups}
    (hidle : line.isIdle = false) (hform : Form.find? line = some (.deed .reveal, found))
    (hpieces : Ink.pieces (found.text 1) = .plain first :: Ink.piecesOf marks) (m : Machine σ) :
    (statement line).run.run m =
      match (evaluate (Ink.shownAll (Ink.piecesOf marks))).run.run m with
      | (.error failure, m') => (.error failure, m')
      | (.ok rest, m') => (ask (.reveal (first ++ rest))).run.run m' := by
  have heffects : (Form.deed .reveal).effects found =
      Ink.shownAll (Ink.piecesOf marks) >>= fun rest =>
        (pure [.ask (.reveal (first ++ rest))] : Eval (List Effect)) := by
    rw [Form.effects, Deed.effects, hpieces, Ink.shownAll, Ink.shown]
    simp only [bind_assoc, pure_bind]
  rw [run_statement hidle hform, heffects, evaluate_bind, run_bind]
  rcases (evaluate (Ink.shownAll (Ink.piecesOf marks))).run.run m with ⟨failure | rest, m'⟩
  · rfl
  · show (performAll [.ask (.reveal (first ++ rest))]).run.run m' = _
    rw [performAll_singleton]
    rfl

/-- A line that reveals a text with expressions between markers, and has an ending behind the text,
evaluates the expressions one after the other. If all have values, it then asks once to show the
text with each marker replaced by the display text of the value. If one fails, the line fails like
it: nothing that follows is evaluated, and the host is as it was. -/
theorem reveal_interpolates [Host σ] {first : Text}
    (hfirst : ¬ "\x7b|".toList <:+: first)
    (hmarks : ∀ mark ∈ marks, mark.1 ≠ [] ∧ mark.1.trim = mark.1 ∧
      ¬ "|\x7d".toList <:+: mark.1 ∧ ¬ "\x7b|".toList <:+: mark.2)
    (hne : Ink.written first marks ≠ [])
    (htrim : (Ink.written first marks).trim = Ink.written first marks) (m : Machine σ) :
    (∃ texts m', m.Displays (marks.map Prod.fst) texts m' ∧ m'.host = m.host ∧
      (statement ("Reveal: ".toList ++ (Ink.written first marks ++ " ok".toList))).run.run m =
        (ask (.reveal (Ink.woven first (texts.zip (marks.map Prod.snd))))).run.run m') ∨
    (∃ done expr later texts m₁ failure m₂, marks.map Prod.fst = done ++ expr :: later ∧
      m.Displays done texts m₁ ∧
      (evaluate (Eval.value expr)).run.run m₁ = (.error failure, m₂) ∧ m₂.host = m.host ∧
      (statement ("Reveal: ".toList ++ (Ink.written first marks ++ " ok".toList))).run.run m =
        (.error failure, m₂)) := by
  have hfirm := firm_of_trim hne htrim
  have hending : "ok".toList.map foldCase ∈ Form.endings := by decide
  have hline : Firm ((Ink.written first marks ++ [' ']) ++ "ok".toList) := by
    rw [List.append_assoc]
    exact hfirm.append [' '] (Form.firm_of_ending hending)
  obtain ⟨found, g, e, hidle, hform, hshows⟩ := Form.find?_reveals hline
  have hrevealed : found.text 1 = Ink.written first marks := by
    rw [hshows.eq_trimEnd hline (by simp) hending, trimEnd_append_blank (by decide),
      hfirm.trimEnd_self]
  have hpieces : Ink.pieces (found.text 1) = .plain first :: Ink.piecesOf marks := by
    rw [hrevealed]
    refine Ink.pieces_written hfirst fun mark hmark => ?_
    obtain ⟨hexpr, htrimmed, hclose, hopen⟩ := hmarks mark hmark
    exact ⟨⟨firm_of_trim hexpr htrimmed, hclose⟩, hopen⟩
  have hrun := run_statement_revealing hidle hform hpieces m
  have htext : Form.reveals ++ ' ' :: ((Ink.written first marks ++ [' ']) ++ "ok".toList) =
      "Reveal: ".toList ++ (Ink.written first marks ++ " ok".toList) := by
    rw [List.append_assoc]
    rfl
  rw [← htext, hrun]
  rcases run_shownAll marks m with ⟨texts, m', hdisplays, hall⟩ |
    ⟨done, expr, later, texts, m₁, failure, m₂, hsplit, hdisplays, hfail, hall⟩
  · refine .inl ⟨texts, m', hdisplays, hdisplays.host, ?_⟩
    rw [hall]
    rfl
  · refine .inr ⟨done, expr, later, texts, m₁, failure, m₂, hsplit, hdisplays, hfail, ?_, ?_⟩
    · rw [← hdisplays.host, ← host_run_evaluate (Eval.value expr) m₁, hfail]
    · rw [hall]

/-- A text whose markers stand among braces and bars. -/
def braced : Text :=
  "\x7b\x7b|1 + 1|\x7d\x7d|\x7b|true|\x7d".toList

theorem reveal_interpolates_braced :
    ((statement ("Reveal: ".toList ++ (braced ++ " ok".toList))).run.run .unused).2.host.output =
      #["\x7b2\x7d|true".toList] := by
  have hok : ((statement ("Reveal: ".toList ++ (braced ++ " ok".toList))).run.run .unused).1 =
      .ok () := by decide +kernel
  have hsum : ((evaluate (Eval.value "1 + 1".toList)).run.run .unused).1 =
      .ok (.number (.ofNat 2)) := by decide +kernel
  have htrue : ((evaluate (Eval.value "true".toList)).run.run
      ((evaluate (Eval.value "1 + 1".toList)).run.run .unused).2).1 = .ok (.boolean true) := by
    decide +kernel
  have hbraced : braced = Ink.written ['\x7b']
      [("1 + 1".toList, "\x7d|".toList), ("true".toList, [])] := by decide
  rw [hbraced] at hok ⊢
  have hmarks := @reveal_interpolates Transcript
    [("1 + 1".toList, "\x7d|".toList), ("true".toList, [])] _ ['\x7b']
    (by decide) (by decide) (by decide) (by decide) .unused
  rcases hmarks with ⟨texts, m', hdisplays, hhost, hrun⟩ |
    ⟨_, _, _, _, _, failure, m', -, -, -, -, hrun⟩
  · cases hdisplays with
    | more hfirst hrest =>
      rw [hfirst] at hsum htrue
      cases hsum
      cases hrest with
      | more hsecond hrest =>
        rw [hsecond] at htrue
        cases htrue
        cases hrest
        rw [hrun]
        show m'.host.output.push _ = _
        rw [hhost, Store.display, Store.displayWithin, Store.display, Store.displayWithin]
        decide +kernel
  · rw [hrun] at hok
    cases hok

end Run

end Grimoire
