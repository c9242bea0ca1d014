import Grimoire.Proofs.Lines
import Grimoire.Proofs.Unambiguous

/-!
# Forms do not overlap

The verbs of the forms differ, and a line that begins with a verb has an ending that can be told
from what stands before it. So but for a line whose second word is `is`, which may bind a name, a
line is taken by at most one form: the one of its verb. What that form reads in the line is one of
its sentences.
-/

namespace Grimoire

open Text

namespace Form

/-! ## Endings -/

/-- The ways to write the ending of a statement, in small letters. -/
def endings : List Text :=
  ["ok".toList, "ok?".toList, "okay".toList, "okay?".toList]

theorem takes_ending {s : Text} {notes : Notes} :
    ending.Takes s notes ↔ s.map foldCase ∈ endings ∧ notes = [] := by
  have hstrands : ending.strands = [[.keyword "ok", .keyword "?"], [.keyword "ok"],
      [.keyword "okay", .keyword "?"], [.keyword "okay"]] := rfl
  have htwo : ∀ w : String, Pattern.TakesAll [.keyword w, .keyword "?"] s notes ↔
      s.map foldCase = (w.toList ++ ['?']).map foldCase ∧ notes = [] := by
    intro w
    constructor
    · rintro ⟨a, b, n, m, rfl, rfl, ⟨ha, rfl⟩, hmark⟩
      obtain ⟨hb, rfl⟩ := Pattern.takesAll_singleton.1 hmark
      exact ⟨by rw [List.map_append, List.map_append, ha, hb]; rfl, rfl⟩
    · rintro ⟨hs, rfl⟩
      rw [List.map_append, List.map_eq_append_iff] at hs
      obtain ⟨a, b, rfl, ha, hb⟩ := hs
      exact ⟨a, b, [], [], rfl, rfl, ⟨ha, rfl⟩, Pattern.takesAll_singleton.2 ⟨hb, rfl⟩⟩
  have hone : ∀ w : String, Pattern.TakesAll [.keyword w] s notes ↔
      s.map foldCase = w.toList.map foldCase ∧ notes = [] :=
    fun w => Pattern.takesAll_singleton
  rw [Pattern.takes_iff_strands, hstrands]
  simp only [List.mem_cons, List.not_mem_nil, or_false, exists_eq_or_imp, exists_eq_left, htwo,
    hone, endings]
  constructor
  · rintro (⟨h, hn⟩ | ⟨h, hn⟩ | ⟨h, hn⟩ | ⟨h, hn⟩)
    · exact ⟨.inr (.inl h), hn⟩
    · exact ⟨.inl h, hn⟩
    · exact ⟨.inr (.inr (.inr h)), hn⟩
    · exact ⟨.inr (.inr (.inl h)), hn⟩
  · rintro ⟨h | h | h | h, hn⟩
    · exact .inr (.inl ⟨h, hn⟩)
    · exact .inl ⟨h, hn⟩
    · exact .inr (.inr (.inr ⟨h, hn⟩))
    · exact .inr (.inr (.inl ⟨h, hn⟩))

variable {s s' e e' g line : Text}

/-- No ending is the end of another. -/
theorem ending_inj (he : e.map foldCase ∈ endings) (he' : e'.map foldCase ∈ endings)
    (h : s ++ e = s' ++ e') : s = s' ∧ e = e' := by
  have hsuffix : ∀ a ∈ endings, ∀ b ∈ endings, a <:+ b → a = b := by
    decide
  have hnil : ∀ {x a b : Text}, a = x ++ b → a.map foldCase ∈ endings →
      b.map foldCase ∈ endings → x = [] := by
    rintro x a b rfl ha hb
    have hsame := hsuffix _ hb _ ha ⟨x.map foldCase, (List.map_append ..).symm⟩
    have hlen := congrArg List.length hsame
    rw [List.length_map, List.length_map, List.length_append] at hlen
    exact List.length_eq_zero_iff.1 (by omega)
  rcases List.append_eq_append_iff.1 h with ⟨x, rfl, hx⟩ | ⟨x, rfl, hx⟩
  · obtain rfl := hnil hx he he'
    exact ⟨(List.append_nil s).symm, hx⟩
  · obtain rfl := hnil hx he' he
    exact ⟨List.append_nil s', hx.symm⟩

theorem firm_of_ending (he : e.map foldCase ∈ endings) : Firm e := by
  have hall : ∀ key ∈ endings, key ≠ [] ∧ ∀ c ∈ key, c.isLower = true ∨ c = '?' := by
    decide
  obtain ⟨hne, hletters⟩ := hall _ he
  refine firm_of_forall (fun hnil => hne (by rw [hnil]; rfl)) fun c hc => ?_
  rcases hletters _ (List.mem_map_of_mem hc) with hlower | hmark
  · exact isBlank_of_isLower_foldCase hlower
  · rw [eq_of_foldCase_eq (by decide) (show foldCase c = foldCase '?' from hmark)]
    decide

/-! ## What a form reads -/

/-- A form takes its phrase, blanks and an ending. -/
theorem takes_pattern {form : Form} (hform : form ≠ .deed .reveal) {notes : Notes} :
    form.pattern.Takes line notes ↔ ∃ s g e, line = s ++ (g ++ e) ∧
      form.phrase.Takes s notes ∧ Blank g ∧ e.map foldCase ∈ endings := by
  rw [pattern_eq hform]
  constructor
  · rintro ⟨s, _, n, _, rfl, rfl, hs, g, e, _, m, rfl, rfl, ⟨⟨-, hg⟩, rfl⟩, he⟩
    obtain ⟨hfold, rfl⟩ := takes_ending.1 he
    exact ⟨s, g, e, rfl, hs, hg, hfold⟩
  · rintro ⟨s, g, e, rfl, hs, hg, he⟩
    exact ⟨s, g ++ e, notes, [], rfl, rfl, hs, g, e, [], [], rfl, rfl, ⟨⟨Nat.zero_le _, hg⟩, rfl⟩,
      takes_ending.2 ⟨he, rfl⟩⟩

theorem steady_pattern {form : Form} (hform : form ≠ .deed .reveal) :
    form.pattern.steady = true := by
  rw [pattern_eq hform]
  show (form.phrase.steady && (Pattern.steady .space && ending.steady)) = true
  rw [steady_phrase]
  rfl

theorem nodup_slots {form : Form} {symbols : Sentence} (h : symbols ∈ form.sentences) :
    (Sentence.slots symbols).Nodup := by
  have hall : ∀ form ∈ catalogue, ∀ symbols ∈ form.sentences, (Sentence.slots symbols).Nodup := by
    decide
  exact hall form (mem_catalogue form) symbols h

/-- How a match reads a line: as a sentence of the form and an ending. -/
structure Reads (symbols : Sentence) (line : Text) (g : Groups) (operands : Nat → Text)
    (sentence blanks ending : Text) : Prop where
  line : line = sentence ++ (blanks ++ ending)
  writes : symbols.Writes operands sentence
  fits : ∀ symbol ∈ symbols, symbol.Fits operands
  blank : Blank blanks
  ending : ending.map foldCase ∈ endings
  get? : ∀ slot, g.get? slot = if slot ∈ Sentence.slots symbols then some (operands slot) else none

theorem Reads.text {symbols : Sentence} {line : Text} {found : Groups} {operands : Nat → Text}
    (h : Reads symbols line found operands s g e) {slot : Nat}
    (hslot : slot ∈ Sentence.slots symbols) : found.text slot = operands slot := by
  rw [Groups.text, h.get?, if_pos hslot]
  rfl

/-- A reading along the strand of a sentence. -/
theorem exists_reads_of_strand {form : Form} {symbols : Sentence}
    (hsymbols : symbols ∈ form.sentences) {match' : Groups} {notes : Notes}
    (hline : line = s ++ (g ++ e)) (hs : Pattern.TakesAll symbols.strand s notes) (hg : Blank g)
    (he : e.map foldCase ∈ endings) (hget : ∀ slot, match'.get? slot = notes.lookup slot) :
    ∃ operands, Reads symbols line match' operands s g e := by
  obtain ⟨operands, hw, hfits, rfl⟩ :=
    Sentence.exists_writes_of_takesAll (nodup_slots hsymbols) hs
  exact ⟨operands, hline, hw, hfits, hg, he, fun slot => by rw [hget, lookup_filled]⟩

/-- A form reads one of its sentences in every line that it takes. -/
theorem exists_reads_of_match? {form : Form} (hform : form ≠ .deed .reveal) {match' : Groups}
    (h : form.pattern.match? line = some match') :
    ∃ symbols ∈ form.sentences, ∃ operands s g e, Reads symbols line match' operands s g e := by
  obtain ⟨notes, htakes, hget⟩ := Pattern.exists_takes_of_match? h
  obtain ⟨s, g, e, hline, hs, hg, he⟩ := (takes_pattern hform).1 htakes
  obtain ⟨strand, hstrand, hs⟩ := Pattern.takes_iff_strands.1 hs.blunt
  rw [strands_phrase hform] at hstrand
  obtain ⟨symbols, hsymbols, rfl⟩ := List.mem_map.1 hstrand
  obtain ⟨operands, hreads⟩ := exists_reads_of_strand hsymbols hline hs hg he hget
  exact ⟨symbols, hsymbols, operands, s, g, e, hreads⟩

/-- A form takes every line on which one of its sentences is written. -/
theorem exists_match?_of_writes {form : Form} (hform : form ≠ .deed .reveal) {symbols : Sentence}
    (hsymbols : symbols ∈ form.sentences) {operands : Nat → Text} (hs : symbols.Writes operands s)
    (hfits : ∀ symbol ∈ symbols, symbol.Fits operands) (hg : Blank g)
    (he : e.map foldCase ∈ endings) (hline : '\n' ∉ s) :
    ∃ match', form.pattern.match? (s ++ (g ++ e)) = some match' := by
  have hstrand := Sentence.takesAll_of_writes hfits hs
  have hblunt := Pattern.takes_iff_strands.2
    ⟨symbols.strand, strands_phrase hform ▸ List.mem_map_of_mem hsymbols, hstrand⟩
  exact Pattern.exists_match?_of_takes (steady_pattern hform)
    ((takes_pattern hform).2 ⟨s, g, e, rfl, Pattern.takes_of_blunt hline hblunt, hg, he⟩)

/-! ## Verbs -/

/-- The word that the sentences of a form begin with, in small letters. -/
def verb (form : Form) : Text :=
  match form.sentences.head? with
  | some (.keyword letters :: _) => letters.toList.map foldCase
  | _ => []

/-- Whether a sentence begins with a verb that consists of letters and goes on otherwise than with
`is`. -/
def beginsWith (verb : Text) : Sentence → Bool
  | .keyword letters :: next :: _ => letters.toList.map foldCase == verb &&
      (!verb.isEmpty && verb.all Char.isLower) && !next.keys.contains "is".toList
  | _ => false

theorem beginsWith_verb {form : Form} (hassign : form ≠ .computation .assign) {symbols : Sentence}
    (hsymbols : symbols ∈ form.sentences) : beginsWith form.verb symbols = true := by
  have hall : ∀ form ∈ catalogue, form ≠ .computation .assign →
      ∀ symbols ∈ form.sentences, beginsWith form.verb symbols = true := by
    decide
  exact hall form (mem_catalogue form) hassign symbols hsymbols

theorem letters_of_beginsWith {verb : Text} {symbols : Sentence}
    (h : beginsWith verb symbols = true) : (!verb.isEmpty && verb.all Char.isLower) = true := by
  match symbols, h with
  | .keyword letters :: next :: rest, h =>
    rw [beginsWith, Bool.and_eq_true, Bool.and_eq_true] at h
    exact h.1.2

/-- Forms with sentences have verbs of their own. -/
theorem verb_inj {form other : Form} (hform : form.sentences ≠ []) (hother : other.sentences ≠ [])
    (h : form.verb = other.verb) : form = other := by
  have hall : ∀ form ∈ catalogue, ∀ other ∈ catalogue, form.sentences ≠ [] →
      other.sentences ≠ [] → form.verb = other.verb → form = other := by
    decide +kernel
  exact hall form (mem_catalogue form) other (mem_catalogue other) hform hother h

/-- A sentence with a verb: the verb, blanks and the rest. -/
theorem exists_of_beginsWith {verb : Text} {symbols : Sentence} {operands : Nat → Text}
    (hsymbols : beginsWith verb symbols = true) (hs : symbols.Writes operands s) :
    ∃ v g t symbol rest, symbols = symbol :: rest ∧ rest ≠ [] ∧ s = v ++ (g ++ t) ∧ Solid v ∧
      v.map foldCase = verb ∧ Blank g ∧ g ≠ [] ∧ Sentence.Writes operands rest t ∧
      ∀ next ∈ rest.head?, "is".toList ∉ next.keys := by
  match symbols, hsymbols, hs with
  | .keyword letters :: next :: rest, hsymbols, hs =>
    rw [beginsWith, Bool.and_eq_true, Bool.and_eq_true, beq_iff_eq] at hsymbols
    obtain ⟨⟨rfl, hletters⟩, his⟩ := hsymbols
    obtain ⟨v, g, t, rfl, hv, ⟨hne, hg⟩, ht⟩ := hs
    refine ⟨v, g, t, _, _, rfl, by simp, rfl, Symbol.solid_of_fold hletters hv, hv, hg, hne, ht, ?_⟩
    intro other hother
    obtain rfl := Option.some.inj hother
    simpa using his

/-! ## One form for a line -/

/-- The first word of a text that goes on apart is a word of the text. -/
theorem mem_words_of_first {k b w x : Text} (hk : Solid k) (hb : StartsApart b) (hw : w ≠ [])
    (hx : StartsApart x) (h : k ++ b = w ++ x) : k ∈ words w := by
  rcases List.append_eq_append_iff.1 h with ⟨y, rfl, hy⟩ | ⟨y, rfl, hy⟩
  · subst hy
    have hword := mem_words (a := []) hk endsApart_nil hb.of_append
    rwa [List.nil_append] at hword
  · cases y with
    | nil =>
      rw [List.append_nil] at hk ⊢
      rw [hk.words_eq]
      exact List.mem_singleton_self w
    | cons c y =>
      have hblank : isBlank c = true := hx c (by rw [hy]; rfl)
      rw [hk.unblank c (by simp)] at hblank
      cases hblank

section Verbs

variable {form other : Form} {v t : Text}

/-- Behind a word of letters no colon stands, so a line that begins with one reveals nothing. -/
theorem match?_reveal_eq_none {key : Text} (hkey : (!key.isEmpty && key.all Char.isLower) = true)
    (hv : v.map foldCase = key) (ht : StartsApart t) :
    (Form.deed .reveal).pattern.match? (v ++ t) = none := by
  rw [Bool.and_eq_true, List.all_eq_true] at hkey
  rw [Option.eq_none_iff_forall_ne_some]
  intro match' hmatch
  obtain ⟨notes, ⟨_, u, _, _, hline, -, ⟨r, _, _, _, rfl, -, ⟨hr, -⟩, -⟩, -⟩, -⟩ :=
    Pattern.exists_takes_of_match? hmatch
  have hcolon : ':' ∈ r.map foldCase := by
    rw [hr]
    decide
  rw [List.append_assoc] at hline
  rcases List.append_eq_append_iff.1 hline with ⟨x, rfl, hx⟩ | ⟨x, rfl, -⟩
  · cases x with
    | nil =>
      rw [List.append_nil, hv] at hcolon
      exact absurd (hkey.2 _ hcolon) (by decide)
    | cons c x =>
      -- what follows the word is blank, and no character of the keyword is
      have hblank := ht c (by rw [hx]; rfl)
      have hall : ∀ d ∈ "reveal:".toList, d.isLower = true ∨ d = ':' := by decide
      have hfold : foldCase c ∈ "reveal:".toList := by
        rw [show "reveal:".toList = (v ++ c :: x).map foldCase from hr.symm]
        exact List.mem_map_of_mem (by simp)
      rcases hall _ hfold with hlower | hmark
      · rw [isBlank_of_isLower_foldCase hlower] at hblank
        cases hblank
      · rw [eq_of_foldCase_eq (by decide) (show foldCase c = foldCase ':' from hmark)] at hblank
        exact absurd hblank (by decide)
  · rw [List.map_append] at hv
    exact absurd (hkey.2 ':' (hv ▸ List.mem_append_left _ hcolon)) (by decide)

/-- A line whose second word is not `is` assigns nothing. -/
theorem match?_assign_eq_none (hv : Solid v) (hg : Blank g) (hne : g ≠ [])
    (ht : ∃ c ∈ t.head?, isBlank c = false)
    (his : ∀ k b, Solid k → StartsApart b → t = k ++ b → k.map foldCase ≠ "is".toList) :
    (Form.computation .assign).pattern.match? (v ++ (g ++ t)) = none := by
  rw [Option.eq_none_iff_forall_ne_some]
  intro match' hmatch
  obtain ⟨symbols, hsymbols, operands, s, g', e, hreads⟩ :=
    exists_reads_of_match? (by decide) hmatch
  obtain rfl : symbols = [.name 1, .keyword "is", .text 2] := List.mem_singleton.1 hsymbols
  obtain ⟨w, a, u, rfl, hw, ⟨hane, ha⟩, k, b, x, rfl, hk, ⟨hbne, hb⟩, -⟩ := hreads.writes
  have hname : w = operands 1 := hw
  have hfits := hreads.fits (.name 1) (by simp)
  have hwsolid : Solid w := hname ▸ Symbol.solid_of_word hfits.1 hfits.2
  have hksolid : Solid k :=
    Symbol.solid_of_fold (by decide) (show k.map foldCase = "is".toList from hk)
  have hline : v ++ (g ++ t) = w ++ (a ++ (k ++ (b ++ (x ++ (g' ++ e))))) := by
    simpa using hreads.line
  obtain ⟨-, hrest⟩ := solid_append_inj hv hwsolid (hg.startsApart_append hne t)
    (ha.startsApart_append hane _) hline
  obtain ⟨-, hrest⟩ := blank_append_inj hg ha ht (hksolid.firm.head_append _) hrest
  exact his k _ hksolid (hb.startsApart_append hbne _) hrest hk

/-- A line that begins with the verb of a form and goes on otherwise than with `is` is taken by no
other form. -/
theorem match?_eq_none_of_verb (hform : form ≠ .computation .assign)
    (hsentences : form.sentences ≠ []) (hv : v.map foldCase = form.verb) (hg : Blank g)
    (hne : g ≠ [])
    (ht : ∃ c ∈ t.head?, isBlank c = false)
    (his : ∀ k b, Solid k → StartsApart b → t = k ++ b → k.map foldCase ≠ "is".toList)
    (hother : other ≠ form) : other.pattern.match? (v ++ (g ++ t)) = none := by
  obtain ⟨symbols, hsymbols⟩ := List.exists_mem_of_ne_nil _ hsentences
  have hletters := letters_of_beginsWith (beginsWith_verb hform hsymbols)
  have hsolid := Symbol.solid_of_fold hletters hv
  have hapart : StartsApart (g ++ t) := hg.startsApart_append hne t
  by_cases hreveal : other = .deed .reveal
  · exact hreveal ▸ match?_reveal_eq_none hletters hv hapart
  by_cases hassign : other = .computation .assign
  · exact hassign ▸ match?_assign_eq_none hsolid hg hne ht his
  -- any other form would begin with another verb
  rw [Option.eq_none_iff_forall_ne_some]
  intro match' hmatch
  obtain ⟨symbols, hsymbols, operands, s, g', e, hreads⟩ := exists_reads_of_match? hreveal hmatch
  obtain ⟨w, a, u, symbol, rest, rfl, -, rfl, hwsolid, hw, ha, hane, -⟩ :=
    exists_of_beginsWith (beginsWith_verb hassign hsymbols) hreads.writes
  have hline : v ++ (g ++ t) = w ++ (a ++ (u ++ (g' ++ e))) := by simpa using hreads.line
  obtain ⟨rfl, -⟩ := solid_append_inj hsolid hwsolid hapart (ha.startsApart_append hane _) hline
  exact hother (verb_inj (List.ne_nil_of_mem hsymbols) hsentences (hw.symm.trans hv))

/-- The form that is found takes the line. -/
theorem match?_of_find? {match' : Groups} (h : find? line = some (form, match')) :
    form.pattern.match? line.trim = some match' := by
  obtain ⟨tried, -, htried⟩ := List.exists_of_findSome?_eq_some h
  obtain ⟨g, hg, hpair⟩ := Option.map_eq_some_iff.1 htried
  obtain ⟨rfl, rfl⟩ := Prod.mk.inj hpair
  exact hg

/-- The form of a line is the one that takes it, if no other does. -/
theorem find?_eq_some {match' : Groups} (hmatch : form.pattern.match? line.trim = some match')
    (hnone : ∀ other, other ≠ form → other.pattern.match? line.trim = none) :
    find? line = some (form, match') := by
  have hsome : (find? line).isSome = true := by
    rw [find?, List.isSome_findSome?, List.any_eq_true]
    exact ⟨form, mem_catalogue form, by rw [hmatch]; rfl⟩
  obtain ⟨⟨other, found⟩, hfound⟩ := Option.isSome_iff_exists.1 hsome
  have hother := match?_of_find? hfound
  by_cases hsame : other = form
  · subst hsame
    rw [hfound, Option.some.inj (hmatch.symm.trans hother)]
  · rw [hnone other hsame] at hother
    cases hother

/-- A line that begins with a verb has something to run. -/
theorem isIdle_of_find? (hreveal : form ≠ .deed .reveal) (hassign : form ≠ .computation .assign)
    {match' : Groups} (h : find? line = some (form, match')) : line.isIdle = false := by
  obtain ⟨symbols, hsymbols, operands, s, g, e, hreads⟩ :=
    exists_reads_of_match? hreveal (match?_of_find? h)
  have hbegins := beginsWith_verb hassign hsymbols
  obtain ⟨v, a, u, symbol, rest, rfl, -, rfl, hsolid, hv, -⟩ :=
    exists_of_beginsWith hbegins hreads.writes
  obtain ⟨c, v, rfl⟩ := List.exists_cons_of_ne_nil hsolid.ne_nil
  have hslash : c ≠ '/' := by
    rintro rfl
    have hletters := letters_of_beginsWith hbegins
    rw [← hv, List.map_cons, Bool.and_eq_true, List.all_cons, Bool.and_eq_true] at hletters
    exact absurd hletters.2.1 (by decide)
  have hline : line.trim = c :: (v ++ (a ++ u) ++ (g ++ e)) := hreads.line
  have htrim := trim_trim line
  rw [hline] at htrim
  rw [isIdle_congr (trim_trim line).symm, hline]
  exact isIdle_cons hslash htrim

end Verbs

end Form

end Grimoire
