import Grimoire.Proofs.Dispatch
import Grimoire.Proofs.Targets

/-!
# What an ending cuts off

The ending of a statement is known by its letters alone: it need not stand apart from what comes
before. A form other than the one that reveals takes a line just if the line is a phrase of the
form, blanks or none, and the letters of an ending. The form that reveals takes any text, and where
the text ends in those letters and something stands before them, it reveals only what stands before.
-/

namespace Grimoire

open Text

/-! ## Texts without markers -/

namespace Ink

theorem matchStart?_marked {s : Text} (h : ¬ "\x7b|".toList <+: s) :
    marked.matchStart? s = none := by
  refine Pattern.matchStart?_eq_none fun t ht => ?_
  obtain ⟨u, hu, -⟩ := Pattern.mem_ways_andThen.1 ht
  obtain ⟨taken, hrest, hfold⟩ := Scan.exists_of_takeWord (Pattern.mem_ways_word.1 hu)
  exact h ⟨u.rest, (eq_of_map_foldCase_eq (by decide) hfold) ▸ hrest.symm⟩

theorem piecesFrom_of_unmarked {before s : Text} (h : ¬ "\x7b|".toList <:+: s) :
    piecesFrom before s = [plain (before.reverse ++ s)] := by
  induction s generalizing before with
  | nil => rw [piecesFrom, List.append_nil]
  | cons c rest ih =>
    have hrest : ¬ "\x7b|".toList <:+: rest := fun hin =>
      h (hin.trans (List.suffix_cons c rest).isInfix)
    have hstart := matchStart?_marked fun hin => h hin.isInfix
    rw [piecesFrom]
    split
    · next hmatch =>
      rw [hstart] at hmatch
      cases hmatch
    · rw [ih hrest, List.reverse_cons, List.append_assoc]
      rfl

end Ink

namespace Form

variable {t s e line : Text}

/-! ## The form that reveals -/

/-- The first word of a line that reveals. -/
def reveals : Text :=
  "Reveal:".toList

theorem solid_reveals : Solid reveals :=
  ⟨by decide, by decide⟩

/-- No other form takes a line that begins with the colon. -/
theorem match?_reveals_eq_none {other : Form} (hother : other ≠ .deed .reveal) (t : Text) :
    other.pattern.match? (reveals ++ ' ' :: t) = none := by
  rw [Option.eq_none_iff_forall_ne_some]
  intro found hmatch
  obtain ⟨symbols, hsymbols, operands, s, g, e, hreads⟩ := exists_reads_of_match? hother hmatch
  have hapart : StartsApart (' ' :: t) := by
    intro c hc
    obtain rfl := Option.some.inj hc
    decide
  have hcolon : ':' ∈ reveals := by decide
  by_cases hassign : other = .computation .assign
  · subst hassign
    obtain rfl : symbols = [.name 1, .keyword "is", .text 2] := List.mem_singleton.1 hsymbols
    obtain ⟨w, a, u, rfl, hw, ⟨hane, ha⟩, -⟩ := hreads.writes
    obtain rfl : w = operands 1 := hw
    obtain ⟨hne, hword⟩ := hreads.fits (.name 1) (by simp)
    obtain ⟨hsame, -⟩ := solid_append_inj solid_reveals (Symbol.solid_of_word hne hword) hapart
      (ha.startsApart_append hane (u ++ (g ++ e))) (by simpa using hreads.line)
    rw [hsame] at hcolon
    exact absurd (hword _ hcolon) (by decide)
  · have hbegins := beginsWith_verb hassign hsymbols
    obtain ⟨v, a, u, symbol, rest, rfl, -, rfl, hsolid, hv, ha, hane, -⟩ :=
      exists_of_beginsWith hbegins hreads.writes
    obtain ⟨hsame, -⟩ := solid_append_inj solid_reveals hsolid hapart
      (ha.startsApart_append hane (u ++ (g ++ e))) (by simpa using hreads.line)
    have hletters := letters_of_beginsWith hbegins
    rw [Bool.and_eq_true, List.all_eq_true, ← hv, ← hsame] at hletters
    exact absurd (hletters.2 _ (List.mem_map_of_mem hcolon)) (by decide)

theorem takes_optional_ending {notes : Notes} : (Pattern.optional ending).Takes e notes ↔
    (e = [] ∨ e.map foldCase ∈ endings) ∧ notes = [] := by
  show (ending.Takes e notes ∨ e = [] ∧ notes = []) ↔ _
  rw [takes_ending]
  tauto

theorem takes_shortLines {notes : Notes} :
    (Pattern.shortLines 1).Takes s notes ↔ s ≠ [] ∧ notes = [(1, s)] := by
  constructor
  · rintro ⟨_, ⟨⟨hlen, -⟩, rfl⟩, rfl⟩
    exact ⟨List.length_pos_iff.1 hlen, rfl⟩
  · rintro ⟨hne, rfl⟩
    exact ⟨[], ⟨⟨List.length_pos_iff.2 hne, fun _ _ => rfl⟩, rfl⟩, rfl⟩

/-- The text between blanks and an ending, or no ending, may be of any length. -/
theorem takesAll_back {notes : Notes} :
    Pattern.TakesAll [.space, .optional ending] s notes ↔
      ∃ g e, s = g ++ e ∧ Blank g ∧ (e = [] ∨ e.map foldCase ∈ endings) ∧ notes = [] := by
  constructor
  · rintro ⟨g, e, _, _, rfl, rfl, ⟨⟨-, hg⟩, rfl⟩, he⟩
    obtain ⟨hend, rfl⟩ := takes_optional_ending.1 (Pattern.takesAll_singleton.1 he)
    exact ⟨g, e, rfl, hg, hend, rfl⟩
  · rintro ⟨g, e, rfl, hg, he, rfl⟩
    exact ⟨g, e, [], [], rfl, rfl, ⟨⟨Nat.zero_le _, hg⟩, rfl⟩,
      Pattern.takesAll_singleton.2 (takes_optional_ending.2 ⟨he, rfl⟩)⟩

/-- What is revealed: a text as short as it can be with blanks and an ending, or no ending, behind
it. -/
structure Shows (t b g e : Text) : Prop where
  text : t = b ++ (g ++ e)
  ne_nil : b ≠ []
  blank : Blank g
  ending : e = [] ∨ e.map foldCase ∈ endings
  shortest : ∀ a x y, t = a ++ (x ++ y) → a ≠ [] → Blank x → (y = [] ∨ y.map foldCase ∈ endings) →
    b.length ≤ a.length

theorem exists_shows (ht : ∃ c ∈ t.head?, isBlank c = false) :
    ∃ found g e, (deed .reveal).pattern.match? (reveals ++ ' ' :: t) = some found ∧
      Shows t (found.text 1) g e := by
  have hne : t ≠ [] := by
    rintro rfl
    obtain ⟨c, hc, -⟩ := ht
    cases hc
  have hsteady : (deed .reveal).pattern.steady = true := rfl
  have hblank : Blank [' '] := by decide
  have htakes : (deed .reveal).pattern.Takes (reveals ++ ' ' :: t) [(1, t)] :=
    ⟨reveals ++ ' ' :: t, [], [(1, t)], [], (List.append_nil _).symm, rfl,
      ⟨reveals, ' ' :: t, [], [(1, t)], rfl, rfl, ⟨rfl, rfl⟩,
        [' '], t, [], [(1, t)], rfl, rfl, ⟨⟨Nat.zero_le _, hblank⟩, rfl⟩,
        takes_shortLines.2 ⟨hne, rfl⟩⟩,
      [], [], [], [], rfl, rfl, ⟨⟨Nat.zero_le _, blank_nil⟩, rfl⟩,
      takes_optional_ending.2 ⟨.inl rfl, rfl⟩⟩
  obtain ⟨found, hfound⟩ := Pattern.exists_match?_of_takes hsteady htakes
  obtain ⟨notes, hprefers, hget⟩ := Pattern.exists_prefers_of_match? hsteady hfound
  have hsteps : (deed .reveal).pattern.steps =
      [.keyword "Reveal:", .space, .shortLines 1, .space, .optional ending] := rfl
  rw [hsteps] at hprefers
  obtain ⟨w, _, _, _, hline, rfl, ⟨hw, rfl⟩, ⟨a, _, _, _, rfl, rfl, ⟨⟨-, ha⟩, rfl⟩,
    ⟨b, _, _, _, rfl, rfl, hb, hback, hshort⟩, hlong⟩, -⟩ := hprefers
  obtain ⟨hbne, rfl⟩ := takes_shortLines.1 hb
  obtain ⟨g, e, rfl, hg, he, rfl⟩ := takesAll_back.1 hback.takesAll
  have hlen : reveals.length = w.length := by
    have hfold := congrArg List.length hw
    rw [List.length_map, List.length_map] at hfold
    exact hfold.symm
  obtain ⟨-, hrest⟩ := List.append_inj hline hlen
  -- just the blank behind the colon is passed
  have hpassed : 1 ≤ a.length := hlong .longest rfl [' '] t hrest.symm
    ⟨[], ⟨⟨Nat.zero_le _, hblank⟩, rfl⟩⟩
    ⟨_, t, [], _, _, (List.append_nil t).symm, rfl, takes_shortLines.2 ⟨hne, rfl⟩,
      takesAll_back.2 ⟨[], [], rfl, blank_nil, .inl rfl, rfl⟩⟩
  obtain ⟨space, a, rfl⟩ := List.exists_cons_of_length_pos hpassed
  obtain ⟨-, rfl⟩ := List.cons.inj hrest
  obtain rfl : a = [] := by
    cases a with
    | nil => rfl
    | cons c a =>
      obtain ⟨d, hd, hfirst⟩ := ht
      obtain rfl : c = d := Option.some.inj hd
      rw [show isBlank c = true from ha c (by simp)] at hfirst
      cases hfirst
  have htext : found.text 1 = b := by
    rw [Groups.text, hget]
    rfl
  refine ⟨found, g, e, hfound, ?_⟩
  rw [htext]
  refine ⟨rfl, hbne, hg, he, ?_⟩
  intro a x y hsplit hane hx hy
  exact hshort .shortest rfl a (x ++ y) hsplit ⟨_, takes_shortLines.2 ⟨hane, rfl⟩⟩
    ⟨_, takesAll_back.2 ⟨x, y, rfl, hx, hy, rfl⟩⟩

/-- Without an ending all of a text is shown, since there is no blank at its end. -/
theorem Shows.eq_of_endless {b g : Text} (h : Shows t b g []) (ht : Firm t) : b = t := by
  have htext := h.text
  rw [List.append_nil] at htext
  rw [htext] at ht
  obtain rfl := ht.eq_nil_of_append_blank h.blank
  rw [htext, List.append_nil]

/-- A text without the letters of an ending behind anything is shown as it is. -/
theorem Shows.eq_self {b g : Text} (h : Shows t b g e) (ht : Firm t)
    (hnone : ∀ s e, t = s ++ e → s ≠ [] → e.map foldCase ∉ endings) : b = t := by
  rcases h.ending with rfl | he
  · exact h.eq_of_endless ht
  · exact absurd he (hnone (b ++ g) e (by rw [h.text, List.append_assoc])
      (List.append_ne_nil_of_left_ne_nil h.ne_nil g))

/-- The letters of an ending are cut off, with the blanks before them. -/
theorem Shows.eq_trimEnd {b g e' : Text} (h : Shows (s ++ e) b g e') (ht : Firm (s ++ e))
    (hs : s ≠ []) (he : e.map foldCase ∈ endings) : b = trimEnd s := by
  obtain ⟨x, hx, hblank⟩ := exists_trimEnd s
  have hne : trimEnd s ≠ [] := by
    intro hnil
    obtain ⟨c, hc, hfirst⟩ := ht.first
    rw [hx, hnil, List.nil_append] at hs hc
    rw [List.head?_append_of_ne_nil _ hs] at hc
    rw [hblank c (List.mem_of_mem_head? hc)] at hfirst
    cases hfirst
  have hshort : b.length ≤ (trimEnd s).length :=
    h.shortest (trimEnd s) x e (by rw [← List.append_assoc, ← hx]) hne hblank (.inr he)
  have he' : e'.map foldCase ∈ endings := by
    refine h.ending.resolve_left ?_
    rintro rfl
    have hall := congrArg List.length (h.eq_of_endless ht)
    have hle := length_trimEnd_le s
    have hpos := List.length_pos_iff.2 (firm_of_ending he).ne_nil
    rw [List.length_append] at hall
    omega
  obtain ⟨hsame, -⟩ := ending_inj he he'
    (show s ++ e = (b ++ g) ++ e' by rw [h.text, List.append_assoc])
  rw [hsame, trimEnd_append_blank h.blank] at hshort ⊢
  have hbegins : trimEnd b <+: b := List.rdropWhile_prefix isBlank b
  exact (hbegins.eq_of_length_le hshort).symm

/-- A line that reveals is of no other form, and what it reveals is what is shown. -/
theorem find?_reveals (ht : Firm t) : ∃ found g e,
    (reveals ++ ' ' :: t).isIdle = false ∧
      find? (reveals ++ ' ' :: t) = some (deed .reveal, found) ∧ Shows t (found.text 1) g e := by
  obtain ⟨found, g, e, hfound, hshows⟩ := exists_shows ht.first
  have hfirm : Firm (reveals ++ ' ' :: t) := by
    obtain ⟨c, hc, hlast⟩ := ht.last
    refine ⟨⟨'R', rfl, by decide⟩, c, ?_, hlast⟩
    rw [List.getLast?_append, List.getLast?_cons, Option.mem_def.1 hc]
    rfl
  refine ⟨found, g, e, ?_, ?_, hshows⟩
  · rw [isIdle, hfirm.trim_self]
    rfl
  · refine find?_eq_some ?_ fun other hother => ?_
    · rw [hfirm.trim_self]
      exact hfound
    · rw [hfirm.trim_self]
      exact match?_reveals_eq_none hother t

/-! ## What is run -/

section Runs

variable {σ : Type} [Host σ]

/-- A text without markers is asked to be shown as far as it is read. -/
theorem run_reveals (ht : Firm t) (hmarks : ¬ "\x7b|".toList <:+: t) (m : Machine σ) :
    ∃ b g e, Shows t b g e ∧ (Run.statement (reveals ++ ' ' :: t)).run.run m =
      (Run.ask (.reveal b)).run.run m := by
  obtain ⟨found, g, e, hidle, hform, hshows⟩ := find?_reveals ht
  refine ⟨found.text 1, g, e, hshows, ?_⟩
  have hunmarked : ¬ "\x7b|".toList <:+: found.text 1 := by
    intro hin
    refine hmarks (hin.trans ?_)
    rw [hshows.text]
    exact (List.prefix_append _ _).isInfix
  have hpieces : Ink.pieces (found.text 1) = [.plain (found.text 1)] :=
    Ink.piecesFrom_of_unmarked hunmarked
  have heffects : (Run.evaluate ((deed .reveal).effects found) : Run σ _).run.run m =
      (.ok [.ask (.reveal (found.text 1))], m) := by
    have hshown : (deed .reveal).effects found =
        (return [.ask (.reveal (found.text 1 ++ []))] : Eval (List Effect)) := by
      rw [effects, Deed.effects, hpieces]
      rfl
    rw [hshown, List.append_nil]
    rfl
  rw [Run.run_statement hidle hform, heffects]
  show (Run.performAll [.ask (.reveal (found.text 1))]).run.run m = _
  rw [Run.performAll_singleton]
  rfl

/-- An ending is known by its letters and need not be a word. A form other than the one that reveals
takes a text just if the text is a phrase of the form, blanks or none, and an ending. Of a trimmed
text without markers all is revealed but the letters of an ending, if something stands before them,
and the blanks before the letters. -/
theorem ending_known_by_letters (t : Text) :
    (∀ form : Form, form ≠ deed .reveal → ((form.pattern.match? t).isSome = true ↔
      ∃ s g e, t = s ++ (g ++ e) ∧ (form.phrase.match? s).isSome = true ∧ Blank g ∧
        e.map foldCase ∈ endings)) ∧
    (t ≠ [] → t.trim = t → ¬ "\x7b|".toList <:+: t → ∀ m : Machine σ,
      (∀ s e, t = s ++ e → s ≠ [] → e.map foldCase ∈ endings →
        (Run.statement ("Reveal: ".toList ++ t)).run.run m =
          (Run.ask (.reveal (trimEnd s))).run.run m) ∧
      ((∀ s e, t = s ++ e → s ≠ [] → e.map foldCase ∉ endings) →
        (Run.statement ("Reveal: ".toList ++ t)).run.run m =
          (Run.ask (.reveal t)).run.run m)) := by
  refine ⟨fun form hform => ?_, fun hne htrim hmarks m => ?_⟩
  · constructor
    · intro hsome
      obtain ⟨found, hfound⟩ := Option.isSome_iff_exists.1 hsome
      obtain ⟨notes, htakes, -⟩ := Pattern.exists_takes_of_match? hfound
      obtain ⟨s, g, e, rfl, hs, hg, he⟩ := (takes_pattern hform).1 htakes
      obtain ⟨inner, hinner⟩ := Pattern.exists_match?_of_takes (steady_phrase form) hs
      exact ⟨s, g, e, rfl, by rw [hinner]; rfl, hg, he⟩
    · rintro ⟨s, g, e, rfl, hsome, hg, he⟩
      obtain ⟨inner, hinner⟩ := Option.isSome_iff_exists.1 hsome
      obtain ⟨notes, htakes, -⟩ := Pattern.exists_takes_of_match? hinner
      obtain ⟨found, hfound⟩ := Pattern.exists_match?_of_takes (steady_pattern hform)
        ((takes_pattern hform).2 ⟨s, g, e, rfl, htakes, hg, he⟩)
      rw [hfound]
      rfl
  · have ht := firm_of_trim hne htrim
    obtain ⟨b, g, e', hshows, hrun⟩ := run_reveals ht hmarks m
    have hline : "Reveal: ".toList ++ t = reveals ++ ' ' :: t := rfl
    rw [hline, hrun]
    constructor
    · rintro s e rfl hs he
      rw [hshows.eq_trimEnd ht hs he]
    · intro hnone
      rw [hshows.eq_self ht hnone]

/-- `10ok` is not a word that ends a statement, but its letters are taken for an ending. -/
theorem ending_known_by_letters_glued :
    ((computation .assign).pattern.match? "hp is 10ok".toList).isSome = true ∧
      ((Run.statement "Reveal: hp is 10ok".toList).run.run
        (Machine.fresh {} .standard default ({} : Transcript))).2.host.output =
          #["hp is 10".toList] := by
  have hending : "ok".toList.map foldCase ∈ endings := by decide
  obtain ⟨htaken, hshown⟩ := ending_known_by_letters (σ := Transcript) "hp is 10ok".toList
  constructor
  · exact (htaken (computation .assign) (by decide)).2
      ⟨"hp is 10".toList, [], "ok".toList, by decide, rfl, by decide, hending⟩
  · have hmarks : ¬ "\x7b|".toList <:+: "hp is 10ok".toList := fun hin =>
      absurd (hin.subset (show '\x7b' ∈ "\x7b|".toList by decide)) (by decide)
    have hrun := (hshown (by decide) (by decide) hmarks
      (Machine.fresh {} .standard default {})).1 "hp is 10".toList "ok".toList (by decide)
      (by decide) hending
    rw [show "Reveal: hp is 10ok".toList = "Reveal: ".toList ++ "hp is 10ok".toList by decide, hrun]
    rfl

end Runs

end Form

end Grimoire
