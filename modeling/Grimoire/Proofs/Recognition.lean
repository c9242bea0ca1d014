import Grimoire.Proofs.Clauses

/-!
# The grammar is recognised

A sentence of a form, written with operands that keep clear of the words of the form, is recognised
as a line of that form, whatever the letter case of its keywords and whatever blanks stand between
its symbols, and it is read with the operands that it was written with.
-/

namespace Grimoire

open Text

/-- The keywords of a sentence behind its first operand. -/
def Sentence.links (symbols : Sentence) : List Text :=
  keys (symbols.dropWhile (·.slots.isEmpty))

namespace Form

/-- The words, in small letters, that no operand of a form may have. -/
def reserved (form : Form) : List Text :=
  "is".toList :: form.sentences.flatMap Sentence.links

theorem proper_sentence {form : Form} {symbols : Sentence} (hsymbols : symbols ∈ form.sentences) :
    symbols.Proper form.reserved := by
  have hall : ∀ form ∈ catalogue, ∀ symbols ∈ form.sentences,
      Sentence.Proper form.reserved symbols := by
    decide +kernel
  exact hall form (mem_catalogue form) symbols hsymbols

/-! ## The sentence that was written is read -/

/-- A clause behind something that shows where it ends. -/
structure Shown (form : Form) (front clause back : Sentence) : Prop where
  sentences : form.sentences = withClause front clause back
  omissible : Sentence.Omissible form.reserved front clause back
  nonempty : front ≠ []
  proper : front.Proper form.reserved
  ends : front.ends = true
  keys : ∀ key ∈ Sentence.keys (clause ++ back), key ∈ form.reserved → key ∉ Sentence.keys front

/-- A clause behind a text that takes as little as it can. -/
structure Shortest (form : Form) (pre : Sentence) (slot : Nat) (clause back : Sentence) : Prop where
  sentences : form.sentences = withClause (pre ++ [.text slot]) clause back
  omissible : Sentence.Omissible form.reserved (pre ++ [.text slot]) clause back
  nonempty : pre ≠ []
  proper : pre.Proper form.reserved
  ends : pre.ends = true
  keys : ∀ key ∈ Sentence.keys (.text slot :: (clause ++ back)), key ∈ form.reserved →
    key ∉ Sentence.keys pre
  steps : ∃ front clause' post, form.pattern.steps = front ++ (.short slot ::
      .optional clause' :: (post ++ [.space, Form.ending])) ∧
    front.map Pattern.blunt = pre.strand ++ [.gap] ∧ clause'.blunt.strands = [clause.behind] ∧
    post.map Pattern.blunt = back.behind

instance (reserved : List Text) (front clause back : Sentence) :
    Decidable (Sentence.Omissible reserved front clause back) :=
  decidable_of_iff (Sentence.Proper reserved (front ++ (clause ++ back)) ∧
      (∀ symbol ∈ back, Sentence.plain symbol = true) ∧
      ∃ symbol ∈ clause, symbol.keys ≠ [] ∧
        ∀ key ∈ symbol.keys, key ∈ reserved ∧ key ∉ Sentence.keys (front ++ back))
    ⟨fun ⟨h₁, h₂, h₃⟩ => ⟨h₁, h₂, h₃⟩, fun ⟨h₁, h₂, h₃⟩ => ⟨h₁, h₂, h₃⟩⟩

/-- Whether a form has one sentence at most. -/
def single (form : Form) : Bool :=
  form.sentences.length ≤ 1

theorem shown_invokeInto : Shown (.computation .invokeInto) [.keyword "invoke", .member 1 2]
    [.keyword "with", .text 3] [.keyword "into", .name 4] :=
  ⟨rfl, by decide +kernel, by decide, by decide +kernel, rfl, by decide +kernel⟩

theorem shown_summon : Shown (.deed .summon) [.keyword "Summon", .literal 1 1]
    [.keyword "as", .name 2] [] :=
  ⟨rfl, by decide +kernel, by decide, by decide +kernel, rfl, by decide +kernel⟩

theorem shortest_padLeft : Shortest (.computation .padLeft)
    [.keyword "PadLeft", .text 1, .keyword "to"] 2 [.keyword "with", .text 3]
    [.keyword "into", .name 4] :=
  ⟨rfl, by decide +kernel, by decide, by decide +kernel, rfl, by decide +kernel,
    [.keyword "PadLeft", .gap, .long 1, .gap, .keyword "to", .gap], _,
    [.gap, .keyword "into", .gap, .name 4], rfl, rfl, rfl, rfl⟩

theorem shortest_padRight : Shortest (.computation .padRight)
    [.keyword "PadRight", .text 1, .keyword "to"] 2 [.keyword "with", .text 3]
    [.keyword "into", .name 4] :=
  ⟨rfl, by decide +kernel, by decide, by decide +kernel, rfl, by decide +kernel,
    [.keyword "PadRight", .gap, .long 1, .gap, .keyword "to", .gap], _,
    [.gap, .keyword "into", .gap, .name 4], rfl, rfl, rfl, rfl⟩

theorem shortest_padCenter : Shortest (.computation .padCenter)
    [.keyword "PadCenter", .text 1, .keyword "to"] 2 [.keyword "with", .text 3]
    [.keyword "into", .name 4] :=
  ⟨rfl, by decide +kernel, by decide, by decide +kernel, rfl, by decide +kernel,
    [.keyword "PadCenter", .gap, .long 1, .gap, .keyword "to", .gap], _,
    [.gap, .keyword "into", .gap, .name 4], rfl, rfl, rfl, rfl⟩

theorem shortest_span : Shortest (.computation .span)
    [.keyword "Span", .text 1, .keyword "to"] 2 [.keyword "by", .text 3]
    [.keyword "into", .name 4] :=
  ⟨rfl, by decide +kernel, by decide, by decide +kernel, rfl, by decide +kernel,
    [.keyword "Span", .gap, .short 1, .gap, .keyword "to", .gap], _,
    [.gap, .keyword "into", .gap, .name 4], rfl, rfl, rfl, rfl⟩

theorem shortest_sort : Shortest (.deed .sort) [.keyword "Sort"] 1
    [.choice 2 "ascending" "descending"] [] :=
  ⟨rfl, by decide +kernel, by decide, by decide +kernel, rfl, by decide +kernel,
    [.keyword "Sort", .gap], _, [], rfl, rfl, rfl, rfl⟩

/-- A form has one sentence at most, or a clause that may be left out. -/
theorem sentences_cases (form : Form) :
    form.single = true ∨ (∃ front clause back, form.Shown front clause back) ∨
      ∃ pre slot clause back, form.Shortest pre slot clause back := by
  rcases form with c | d
  · cases c with
    | invokeInto => exact .inr (.inl ⟨_, _, _, shown_invokeInto⟩)
    | padLeft => exact .inr (.inr ⟨_, _, _, _, shortest_padLeft⟩)
    | padRight => exact .inr (.inr ⟨_, _, _, _, shortest_padRight⟩)
    | padCenter => exact .inr (.inr ⟨_, _, _, _, shortest_padCenter⟩)
    | span => exact .inr (.inr ⟨_, _, _, _, shortest_span⟩)
    | _ => exact .inl rfl
  · cases d with
    | summon => exact .inr (.inl ⟨_, _, _, shown_summon⟩)
    | sort => exact .inr (.inr ⟨_, _, _, _, shortest_sort⟩)
    | _ => exact .inl rfl

section Reading

variable {form : Form} {symbols front clause back pre : Sentence} {slot : Nat}
  {operands : Nat → Text} {s g e : Text} {found : Groups}

/-- Where the sentence without the clause was written the clause is not read. -/
theorem reads_of_short (hform : form ≠ .deed .reveal)
    (hsentences : form.sentences = withClause front clause back)
    (ho : Sentence.Omissible form.reserved front clause back)
    (hs : Sentence.Writes operands (front ++ back) s)
    (hadmits : ∀ symbol ∈ front ++ back, symbol.Admits form.reserved operands) (hg : Blank g)
    (he : e.map foldCase ∈ endings) (hmatch : form.pattern.match? (s ++ (g ++ e)) = some found) :
    ∃ operands' s' g' e', Reads (front ++ back) (s ++ (g ++ e)) found operands' s' g' e' := by
  obtain ⟨symbols, hsymbols, operands', s', g', e', hreads⟩ := exists_reads_of_match? hform hmatch
  rw [hsentences] at hsymbols
  rcases List.mem_cons.1 hsymbols with rfl | hsymbols
  · obtain ⟨hsame, -⟩ := ending_inj he hreads.ending
      (show (s ++ g) ++ e = (s' ++ g') ++ e' by simpa using hreads.line)
    exact (ho.not_read hadmits hs hreads.fits hreads.writes hg hreads.blank hsame).elim
  · obtain rfl := List.mem_singleton.1 hsymbols
    exact ⟨operands', s', g', e', hreads⟩

/-- Where the clause was written it is read. -/
theorem Shown.reads (hshown : form.Shown front clause back) (hform : form ≠ .deed .reveal)
    (hs : Sentence.Writes operands (front ++ (clause ++ back)) s)
    (hadmits : ∀ symbol ∈ front ++ (clause ++ back), symbol.Admits form.reserved operands)
    (hg : Blank g) (he : e.map foldCase ∈ endings)
    (hmatch : form.pattern.match? (s ++ (g ++ e)) = some found) :
    ∃ operands' s' g' e',
      Reads (front ++ (clause ++ back)) (s ++ (g ++ e)) found operands' s' g' e' := by
  obtain ⟨symbols, hsymbols, operands', s', g', e', hreads⟩ := exists_reads_of_match? hform hmatch
  rw [hshown.sentences] at hsymbols
  rcases List.mem_cons.1 hsymbols with rfl | hsymbols
  · exact ⟨operands', s', g', e', hreads⟩
  · obtain rfl := List.mem_singleton.1 hsymbols
    obtain ⟨hsame, -⟩ := ending_inj he hreads.ending
      (show (s ++ g) ++ e = (s' ++ g') ++ e' by simpa using hreads.line)
    exact (hshown.omissible.read_of_ends hshown.proper hshown.nonempty hshown.ends hshown.keys
      hadmits hs hreads.fits hreads.writes hg hreads.blank hsame).elim

theorem Shortest.reads (hshortest : form.Shortest pre slot clause back)
    (hform : form ≠ .deed .reveal)
    (hs : Sentence.Writes operands ((pre ++ [.text slot]) ++ (clause ++ back)) s)
    (hadmits : ∀ symbol ∈ (pre ++ [.text slot]) ++ (clause ++ back),
      symbol.Admits form.reserved operands)
    (hg : Blank g) (he : e.map foldCase ∈ endings) (hline : '\n' ∉ s ++ (g ++ e))
    (hmatch : form.pattern.match? (s ++ (g ++ e)) = some found) :
    ∃ operands' s' g' e', Reads ((pre ++ [.text slot]) ++ (clause ++ back)) (s ++ (g ++ e)) found
      operands' s' g' e' := by
  have hlong : (pre ++ [.text slot]) ++ (clause ++ back) ∈ form.sentences := by
    rw [hshortest.sentences]
    exact List.mem_cons_self
  obtain ⟨front, clause', post, hsteps, hfront, hclause, hpost⟩ := hshortest.steps
  obtain ⟨notes, hprefers, hget⟩ := Pattern.exists_prefers_of_match? (steady_pattern hform) hmatch
  rw [hsteps] at hprefers
  obtain ⟨s', g', e', hsplit, hs', hg', he'⟩ := hshortest.omissible.read_of_shortest
    (nodup_slots hlong) hshortest.proper hshortest.nonempty hshortest.ends hshortest.keys hfront
    hclause hpost hprefers hadmits hs hg he hline
  obtain ⟨operands', hreads⟩ := exists_reads_of_strand hlong hsplit hs' hg' he' hget
  exact ⟨operands', s', g', e', hreads⟩

/-- A form reads the sentence that was written. -/
theorem exists_reads_of_writes (hform : form ≠ .deed .reveal) (hsymbols : symbols ∈ form.sentences)
    (hs : symbols.Writes operands s)
    (hadmits : ∀ symbol ∈ symbols, symbol.Admits form.reserved operands)
    (hg : Blank g) (he : e.map foldCase ∈ endings) (hline : '\n' ∉ s ++ (g ++ e))
    (hmatch : form.pattern.match? (s ++ (g ++ e)) = some found) :
    ∃ operands' s' g' e', Reads symbols (s ++ (g ++ e)) found operands' s' g' e' := by
  rcases form.sentences_cases with hsingle | ⟨front, clause, back, hshown⟩ |
      ⟨pre, slot, clause, back, hshortest⟩
  · obtain ⟨symbols', hsymbols', operands', s', g', e', hreads⟩ :=
      exists_reads_of_match? hform hmatch
    obtain ⟨only, honly⟩ := List.length_eq_one_iff.1
      (Nat.le_antisymm (of_decide_eq_true hsingle) (List.length_pos_of_mem hsymbols))
    rw [honly, List.mem_singleton] at hsymbols hsymbols'
    subst hsymbols hsymbols'
    exact ⟨operands', s', g', e', hreads⟩
  · have hboth := hsymbols
    rw [hshown.sentences] at hboth
    rcases List.mem_cons.1 hboth with rfl | hshort
    · exact hshown.reads hform hs hadmits hg he hmatch
    · obtain rfl := List.mem_singleton.1 hshort
      exact reads_of_short hform hshown.sentences hshown.omissible hs hadmits hg he hmatch
  · have hboth := hsymbols
    rw [hshortest.sentences] at hboth
    rcases List.mem_cons.1 hboth with rfl | hshort
    · exact hshortest.reads hform hs hadmits hg he hline hmatch
    · obtain rfl := List.mem_singleton.1 hshort
      exact reads_of_short hform hshortest.sentences hshortest.omissible hs hadmits hg he hmatch

/-! ## Lines -/

/-- A line on which a sentence is written with given operands: a single line, with blanks and an
ending behind the sentence. -/
structure Spells (operands : Nat → Text) (symbols : Sentence) (line : Text) : Prop where
  single : '\n' ∉ line
  ended : ∃ s g e, line = s ++ (g ++ e) ∧ symbols.Writes operands s ∧ (g ≠ [] ∧ Blank g) ∧
    e.map foldCase ∈ endings

/-- A sentence begins with a character that is not blank. -/
theorem head_of_sentence (hsymbols : symbols ∈ form.sentences)
    (hadmits : ∀ symbol ∈ symbols, symbol.Admits form.reserved operands)
    (hs : symbols.Writes operands s) (t : Text) : ∃ c ∈ (s ++ t).head?, isBlank c = false := by
  have hne : symbols ≠ [] := by
    have hall : ∀ form ∈ catalogue, ∀ symbols ∈ form.sentences, symbols ≠ [] := by decide
    exact hall form (mem_catalogue form) symbols hsymbols
  have hproper := proper_sentence hsymbols
  cases symbols with
  | nil => exact absurd rfl hne
  | cons symbol rest =>
    obtain ⟨w, g, u, rfl, hw, -⟩ := Sentence.exists_of_writes_cons hs
    rw [List.append_assoc]
    exact Sentence.head_of_admits (hproper.lettered symbol List.mem_cons_self)
      (hproper.modest symbol List.mem_cons_self) (hadmits symbol List.mem_cons_self) hw _

theorem trim_of_spells (hsymbols : symbols ∈ form.sentences)
    (hadmits : ∀ symbol ∈ symbols, symbol.Admits form.reserved operands)
    (hs : symbols.Writes operands s) (he : e.map foldCase ∈ endings) :
    (s ++ (g ++ e)).trim = s ++ (g ++ e) := by
  obtain ⟨c, hc, hblank⟩ := (firm_of_ending he).last
  have hfirm : Firm (s ++ (g ++ e)) :=
    ⟨head_of_sentence hsymbols hadmits hs (g ++ e),
      c, by simp [List.getLast?_append, Option.mem_def.1 hc], hblank⟩
  exact hfirm.trim_self

/-- No other form takes a line on which a sentence with a verb is written. -/
theorem match?_eq_none_of_spells (hassign : form ≠ .computation .assign)
    (hsymbols : symbols ∈ form.sentences)
    (hadmits : ∀ symbol ∈ symbols, symbol.Admits form.reserved operands)
    (hs : symbols.Writes operands s) (hg : g ≠ [] ∧ Blank g) {other : Form}
    (hother : other ≠ form) : other.pattern.match? (s ++ (g ++ e)) = none := by
  obtain ⟨v, a, t, symbol, rest, rfl, hrest, rfl, -, hv, ha, hane, ht, hnext⟩ :=
    exists_of_beginsWith (beginsWith_verb hassign hsymbols) hs
  have hproper := proper_sentence hsymbols
  cases rest with
  | nil => exact absurd rfl hrest
  | cons next rest =>
    obtain ⟨w, c, u, rfl, hw, -, hapart, -⟩ := Sentence.exists_of_writes_cons ht
    have hletters := hproper.lettered next (by simp)
    have hmodest := hproper.modest next (by simp)
    have hhead : ∀ x, ∃ c ∈ (w ++ x).head?, isBlank c = false :=
      Sentence.head_of_admits hletters hmodest (hadmits next (by simp)) hw
    have hnone := match?_eq_none_of_verb (g := a) (t := (w ++ (c ++ u)) ++ (g ++ e))
      hassign (List.ne_nil_of_mem hsymbols) hv ha hane
      (by simpa using hhead (c ++ (u ++ (g ++ e)))) ?_ hother
    · simpa using hnone
    · -- the second word is one of the second symbol, and that has no `is`
      intro k b hk hb hsplit his
      have hwne : w ≠ [] := by
        rintro rfl
        obtain ⟨c, hc, -⟩ := hhead []
        cases hc
      have hword := mem_words_of_first hk hb hwne
        (hapart.append (Blank.startsApart_append hg.1 hg.2 e)) (by simpa using hsplit.symm)
      have hmem := Symbol.mem_keys_of_mem_words hproper.letters hletters (hadmits next (by simp)) hw
        hword (by rw [his]; exact List.mem_cons_self)
      rw [his] at hmem
      exact hnext next rfl hmem

/-- A line on which a sentence of a form is written is recognised as a line of that form and read
with the operands that were written; no form that comes before takes it. -/
theorem find?_of_spells (hform : form ≠ .deed .reveal) (hsymbols : symbols ∈ form.sentences)
    (hadmits : ∀ symbol ∈ symbols, symbol.Admits form.reserved operands) {line : Text}
    (hline : Spells operands symbols line) :
    (∃ found, find? line = some (form, found) ∧ ∀ slot, (found.get? slot).map Text.trim =
        if slot ∈ Sentence.slots symbols then some (operands slot) else none) ∧
      ∀ other, catalogue.idxOf other < catalogue.idxOf form →
        other.pattern.match? line.trim = none := by
  obtain ⟨hsingle, s, g, e, rfl, hs, hg, he⟩ := hline
  have hproper := proper_sentence hsymbols
  have htrim := trim_of_spells (g := g) hsymbols hadmits hs he
  have hfits : ∀ symbol ∈ symbols, symbol.Fits operands := fun symbol hsymbol =>
    Symbol.fits_of_admits (hproper.modest symbol hsymbol) (hadmits symbol hsymbol)
  obtain ⟨found, hmatch⟩ := exists_match?_of_writes hform hsymbols hs hfits hg.2 he
    fun hmem => hsingle (List.mem_append_left _ hmem)
  have hread : ∀ slot, (found.get? slot).map Text.trim =
      if slot ∈ Sentence.slots symbols then some (operands slot) else none := by
    obtain ⟨operands', s', g', e', hreads⟩ :=
      exists_reads_of_writes hform hsymbols hs hadmits hg.2 he hsingle hmatch
    obtain ⟨hsame, -⟩ := ending_inj he hreads.ending
      (show (s ++ g) ++ e = (s' ++ g') ++ e' by simpa using hreads.line)
    have hagrees := (Sentence.agrees_of_writes (g := []) (h := []) hproper hadmits hreads.fits hs
      hreads.writes blank_nil blank_nil hg.2.startsApart hreads.blank.startsApart
      (.inr ⟨hg.2, hreads.blank⟩) (by simp [Blank.words_eq hg.2]) hsame).1
    intro slot
    rw [hreads.get?]
    by_cases hslot : slot ∈ Sentence.slots symbols
    · obtain ⟨symbol, hsymbol, hmem⟩ := List.mem_flatMap.1 hslot
      rw [if_pos hslot, if_pos hslot, Option.map_some, hagrees slot hslot,
        Symbol.trim_of_admits (hproper.lettered symbol hsymbol) (hadmits symbol hsymbol) slot hmem]
    · rw [if_neg hslot, if_neg hslot]
      rfl
  rw [← htrim] at hmatch
  by_cases hassign : form = .computation .assign
  · subst hassign
    refine ⟨⟨found, ?_, hread⟩, fun other hother => absurd hother (Nat.not_lt_zero _)⟩
    rw [find?, catalogue, List.findSome?_cons, hmatch]
    rfl
  · have hnone : ∀ other, other ≠ form → other.pattern.match? (s ++ (g ++ e)).trim = none := by
      intro other hother
      rw [htrim]
      exact match?_eq_none_of_spells hassign hsymbols hadmits hs hg hother
    refine ⟨⟨found, find?_eq_some hmatch hnone, hread⟩, fun other hother => hnone other ?_⟩
    rintro rfl
    exact absurd hother (Nat.lt_irrefl _)

end Reading

/-- Operands of a line that pads a text. -/
def paddingOperands (slot : Nat) : Text :=
  (["", "name + \" is\"", "(2 + 3)", "\"to\"", "v"].getD slot "").toList

/-- `padCENTER name + " is" to  (2 + 3) With "to" into v oKAY?` is recognised. -/
theorem find?_of_spells_padCenter :
    Spells paddingOperands [.keyword "PadCenter", .text 1, .keyword "to", .text 2, .keyword "with",
        .text 3, .keyword "into", .name 4]
      "padCENTER name + \" is\" to  (2 + 3) With \"to\" into v oKAY?".toList ∧
    (∃ found, find? "padCENTER name + \" is\" to  (2 + 3) With \"to\" into v oKAY?".toList
        = some (.computation .padCenter, found) ∧ ∀ slot, (found.get? slot).map Text.trim =
          if slot ∈ [1, 2, 3, 4] then some (paddingOperands slot) else none) ∧
      ∀ other, catalogue.idxOf other < catalogue.idxOf (.computation .padCenter) →
        other.pattern.match? (Text.trim
          "padCENTER name + \" is\" to  (2 + 3) With \"to\" into v oKAY?".toList) = none := by
  have hblank : Blank " ".toList := by decide
  have hspells : Spells paddingOperands [.keyword "PadCenter", .text 1, .keyword "to", .text 2,
      .keyword "with", .text 3, .keyword "into", .name 4]
      "padCENTER name + \" is\" to  (2 + 3) With \"to\" into v oKAY?".toList := by
    refine ⟨by decide, "padCENTER name + \" is\" to  (2 + 3) With \"to\" into v".toList,
      " ".toList, "oKAY?".toList, by decide, ?_, ⟨by decide, hblank⟩, by decide⟩
    refine ⟨"padCENTER".toList, " ".toList, _, rfl, by decide, ⟨by decide, hblank⟩, ?_⟩
    refine ⟨paddingOperands 1, " ".toList, _, rfl, rfl, ⟨by decide, hblank⟩, ?_⟩
    refine ⟨"to".toList, "  ".toList, _, rfl, by decide, ⟨by decide, by decide⟩, ?_⟩
    refine ⟨paddingOperands 2, " ".toList, _, rfl, rfl, ⟨by decide, hblank⟩, ?_⟩
    refine ⟨"With".toList, " ".toList, _, rfl, by decide, ⟨by decide, hblank⟩, ?_⟩
    refine ⟨paddingOperands 3, " ".toList, _, rfl, rfl, ⟨by decide, hblank⟩, ?_⟩
    exact ⟨"into".toList, " ".toList, _, rfl, by decide, ⟨by decide, hblank⟩, rfl⟩
  refine ⟨hspells, find?_of_spells (by decide) List.mem_cons_self ?_ hspells⟩
  have hoperand : ∀ slot ∈ [1, 2, 3, 4],
      Operand (reserved (.computation .padCenter)) (paddingOperands slot) := by decide
  simp only [List.forall_mem_cons]
  exact ⟨trivial, hoperand 1 (by decide), trivial, hoperand 2 (by decide), trivial,
    hoperand 3 (by decide), trivial, ⟨hoperand 4 (by decide), by decide⟩, by simp⟩

end Form

end Grimoire
