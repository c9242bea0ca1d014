import Grimoire.Proofs.Dispatch

/-!
# Clauses that may be left out

Seven forms have a clause that may be left out. Where it is written it is also read: in two of the
forms the symbol before it shows where it ends, and in the others that symbol is a text which takes
as little as it can and so leaves the clause alone. Where it is not written it is not read, since
its keyword would have to be somewhere in the line. Hence every line is read as the sentence that
was written.
-/

namespace Grimoire

open Text

namespace Sentence

variable {symbols front clause back : Sentence} {reserved : List Text}
  {operands operands' : Nat → Text} {s g h b z t u x y : Text}

/-! ## Words of sentences -/

/-- Whether a symbol is written as one word. -/
def plain (symbol : Symbol) : Bool :=
  symbol.closed && !symbol.isLiteral

/-- Every symbol begins with a character that is not blank. -/
theorem head_of_admits {symbol : Symbol} (hletters : symbol.lettered = true)
    (hmodest : symbol.modest = true) (hadmits : symbol.Admits reserved operands)
    (hs : symbol.Writes operands s) (x : Text) :
    ∃ c ∈ (s ++ x).head?, isBlank c = false := by
  cases hclosed : symbol.closed with
  | true =>
    exact Symbol.head_of_writes hclosed hletters (Symbol.fits_of_admits hmodest hadmits) hs x
  | false =>
    cases symbol with
    | text slot =>
      obtain rfl : s = operands slot := hs
      exact hadmits.firm.head_append x
    | interval first second =>
      obtain rfl : s = operands first ++ '.' :: '.' :: operands second := hs
      rw [List.append_assoc]
      exact hadmits.1.1.firm.head_append _
    | keyword | choice | name | path | literal | member => cases hclosed

/-- A sentence has at least as many words as symbols. -/
theorem length_le_words (hletters : ∀ symbol ∈ symbols, symbol.lettered = true)
    (hmodest : ∀ symbol ∈ symbols, symbol.modest = true)
    (hadmits : ∀ symbol ∈ symbols, symbol.Admits reserved operands)
    (hs : Writes operands symbols s) : symbols.length ≤ (words s).length := by
  induction symbols generalizing s with
  | nil => exact Nat.zero_le _
  | cons symbol rest ih =>
    obtain ⟨hletters, hletters'⟩ := List.forall_mem_cons.1 hletters
    obtain ⟨hmodest, hmodest'⟩ := List.forall_mem_cons.1 hmodest
    obtain ⟨hadmits, hadmits'⟩ := List.forall_mem_cons.1 hadmits
    obtain ⟨w, a, t, rfl, hw, ha, hapart, -, ht⟩ := exists_of_writes_cons hs
    have hhead := head_of_admits hletters hmodest hadmits hw []
    rw [List.append_nil] at hhead
    have hword := List.length_pos_iff.2 (words_ne_nil hhead)
    have hrest := ih hletters' hmodest' hadmits' ht
    rw [words_append hapart, ha.words_append, List.length_append, List.length_cons]
    omega

/-- A sentence of plain symbols has just as many words as symbols. -/
theorem length_words_of_plain (hletters : ∀ symbol ∈ symbols, symbol.lettered = true)
    (hplain : ∀ symbol ∈ symbols, plain symbol = true)
    (hfits : ∀ symbol ∈ symbols, symbol.Fits operands)
    (hs : Writes operands symbols s) : (words s).length = symbols.length := by
  induction symbols generalizing s with
  | nil =>
    rw [show s = [] from hs, words_nil]
    rfl
  | cons symbol rest ih =>
    obtain ⟨hletters, hletters'⟩ := List.forall_mem_cons.1 hletters
    obtain ⟨hplain, hplain'⟩ := List.forall_mem_cons.1 hplain
    obtain ⟨hfits, hfits'⟩ := List.forall_mem_cons.1 hfits
    obtain ⟨w, a, t, rfl, hw, ha, hapart, -, ht⟩ := exists_of_writes_cons hs
    rw [plain, Bool.and_eq_true, Bool.not_eq_true'] at hplain
    have hsolid := Symbol.solid_of_writes hplain.1 hplain.2 hletters hfits hw
    have hrest := ih hletters' hplain' hfits' ht
    rw [words_append hapart, ha.words_append, hsolid.words_eq, List.length_append, hrest,
      List.length_singleton, List.length_cons, Nat.add_comm]

/-- A sentence in two pieces. -/
theorem exists_of_writes_append (hne : front ≠ []) (hs : Writes operands (front ++ back) s) :
    ∃ a g t, s = a ++ (g ++ t) ∧ Writes operands front a ∧ Blank g ∧ StartsApart (g ++ t) ∧
      (g = [] ↔ back = []) ∧ Writes operands back t := by
  induction front generalizing s with
  | nil => exact absurd rfl hne
  | cons symbol rest ih =>
    cases rest with
    | nil => exact exists_of_writes_cons hs
    | cons next rest =>
      obtain ⟨w, c, t, rfl, hw, hc, ht⟩ := hs
      obtain ⟨a, g, u, rfl, ha, hg, hapart, hnil, hu⟩ := ih (by simp) ht
      exact ⟨w ++ (c ++ a), g, u, by simp, ⟨w, c, a, rfl, hw, hc, ha⟩, hg, hapart, hnil, hu⟩

/-! ## What stands behind a text -/

/-- The patterns of symbols that stand behind others. -/
def behind : Sentence → List Pattern
  | [] => []
  | symbol :: rest => Pattern.gap :: strand (symbol :: rest)

theorem strand_append (hne : front ≠ []) :
    strand (front ++ back) = strand front ++ behind back := by
  induction front with
  | nil => exact absurd rfl hne
  | cons symbol rest ih =>
    cases rest with
    | nil => cases back <;> simp [strand, behind]
    | cons next rest =>
      have hrest := ih (by simp)
      rw [List.cons_append] at hrest
      simp only [List.cons_append, strand, hrest, List.append_assoc]

theorem takesAll_behind (hg : Blank g) (hnil : g = [] ↔ symbols = [])
    (hfits : ∀ symbol ∈ symbols, symbol.Fits operands) (ht : Writes operands symbols t) :
    ∃ notes, Pattern.TakesAll (behind symbols) (g ++ t) notes := by
  cases symbols with
  | nil =>
    rw [hnil.2 rfl, show t = [] from ht]
    exact ⟨[], rfl, rfl⟩
  | cons symbol rest =>
    have hne : g ≠ [] := fun h => by simpa using hnil.1 h
    exact ⟨_, g, t, [], _, rfl, rfl, ⟨⟨List.length_pos_iff.2 hne, hg⟩, rfl⟩,
      takesAll_of_writes hfits ht⟩

theorem exists_of_takesAll_behind {notes : Notes} (hslots : (slots symbols).Nodup)
    (h : Pattern.TakesAll (behind symbols) s notes) :
    ∃ operands g t, s = g ++ t ∧ Blank g ∧ StartsApart (g ++ t) ∧ Writes operands symbols t ∧
      ∀ symbol ∈ symbols, symbol.Fits operands := by
  cases symbols with
  | nil =>
    obtain ⟨rfl, -⟩ := h
    exact ⟨fun _ => [], [], [], rfl, blank_nil, startsApart_nil, rfl, by simp⟩
  | cons symbol rest =>
    obtain ⟨g, t, _, _, rfl, -, ⟨⟨hlen, hg⟩, -⟩, ht⟩ := h
    obtain ⟨operands, hw, hfits, -⟩ := exists_writes_of_takesAll hslots ht
    exact ⟨operands, g, t, rfl, hg, Blank.startsApart_append (List.length_pos_iff.1 hlen) hg t, hw,
      hfits⟩

theorem behind_append (hne : clause ≠ []) :
    behind (clause ++ back) = behind clause ++ behind back := by
  cases clause with
  | nil => exact absurd rfl hne
  | cons symbol rest =>
    rw [List.cons_append, behind, ← List.cons_append, strand_append hne]
    rfl

/-! ## A clause that is written is read -/

/-- A front, a clause and a back that make a sentence with the clause and without it. -/
structure Omissible (reserved : List Text) (front clause back : Sentence) : Prop where
  proper : Proper reserved (front ++ (clause ++ back))
  plain : ∀ symbol ∈ back, plain symbol = true
  /-- The clause has a keyword that is nowhere else. -/
  keyed : ∃ symbol ∈ clause, symbol.keys ≠ [] ∧
    ∀ key ∈ symbol.keys, key ∈ reserved ∧ key ∉ keys (front ++ back)

theorem Omissible.clause_ne_nil (ho : Omissible reserved front clause back) : clause ≠ [] := by
  obtain ⟨symbol, hsymbol, -⟩ := ho.keyed
  exact List.ne_nil_of_mem hsymbol

/-- A clause does not fit in where only the back is read: it has too many words. -/
theorem Omissible.not_behind (ho : Omissible reserved front clause back)
    (hadmits : ∀ symbol ∈ clause ++ back, symbol.Admits reserved operands)
    (hfits : ∀ symbol ∈ back, symbol.Fits operands') (ht : Writes operands (clause ++ back) t)
    (hu : Writes operands' back u) (hx : Blank x) (hxt : StartsApart (x ++ t)) (hy : Blank y)
    (hg : Blank g) (hh : Blank h) (heq : z ++ ((x ++ t) ++ g) = (y ++ u) ++ h) : False := by
  have hmem : ∀ symbol ∈ clause ++ back, symbol ∈ front ++ (clause ++ back) :=
    fun symbol hsymbol => List.mem_append_right front hsymbol
  have hlong := length_le_words
    (fun symbol hsymbol => ho.proper.lettered symbol (hmem symbol hsymbol))
    (fun symbol hsymbol => ho.proper.modest symbol (hmem symbol hsymbol)) hadmits ht
  have hshort := length_words_of_plain
    (fun symbol hsymbol => ho.proper.lettered symbol (by simp [hsymbol])) ho.plain hfits hu
  have hcount : (words (z ++ ((x ++ t) ++ g))).length = (words ((y ++ u) ++ h)).length := by
    rw [heq]
  rw [words_append (hxt.append hg.startsApart), words_append_blank hg, words_append_blank hh,
    hx.words_append, hy.words_append, List.length_append, hshort] at hcount
  rw [List.length_append] at hlong
  have hpos := List.length_pos_iff.2 ho.clause_ne_nil
  omega

/-- The keyword of a symbol is a word of the sentence. -/
theorem exists_word_of_keyed {symbol : Symbol} (hsymbol : symbol ∈ symbols)
    (hkeys : symbol.keys ≠ []) (hletters : ∀ symbol ∈ symbols, symbol.lettered = true)
    (hfits : ∀ symbol ∈ symbols, symbol.Fits operands)
    (hs : Writes operands symbols s) : ∃ w ∈ words s, w.map foldCase ∈ symbol.keys := by
  induction symbols generalizing s with
  | nil => cases hsymbol
  | cons first rest ih =>
    obtain ⟨hletters, hletters'⟩ := List.forall_mem_cons.1 hletters
    obtain ⟨hfits, hfits'⟩ := List.forall_mem_cons.1 hfits
    obtain ⟨w, a, t, rfl, hw, ha, hapart, -, ht⟩ := exists_of_writes_cons hs
    rw [words_append hapart, ha.words_append]
    rcases List.mem_cons.1 hsymbol with rfl | hsymbol
    · obtain ⟨hsolid, hmem⟩ := Symbol.mem_keys_of_writes hkeys hletters hfits hw
      exact ⟨w, by simp [hsolid.words_eq], hmem⟩
    · obtain ⟨v, hv, hmem⟩ := ih hsymbol hletters' hfits' ht
      exact ⟨v, List.mem_append_right _ hv, hmem⟩

/-- A clause that is not written is not read. -/
theorem Omissible.not_read (ho : Omissible reserved front clause back)
    (hadmits : ∀ symbol ∈ front ++ back, symbol.Admits reserved operands)
    (hs : Writes operands (front ++ back) s)
    (hfits : ∀ symbol ∈ front ++ (clause ++ back), symbol.Fits operands')
    (hr : Writes operands' (front ++ (clause ++ back)) t) (hg : Blank g) (hh : Blank h)
    (heq : s ++ g = t ++ h) : False := by
  obtain ⟨symbol, hsymbol, hkeys, hreserved⟩ := ho.keyed
  obtain ⟨w, hw, hmem⟩ := exists_word_of_keyed (by simp [hsymbol]) hkeys ho.proper.lettered hfits hr
  obtain ⟨hin, hout⟩ := hreserved _ hmem
  rw [← words_append_blank hh, ← heq, words_append_blank hg] at hw
  refine hout (mem_keys_of_mem_words ho.proper.letters (fun symbol hsymbol => ?_) hadmits hs hw hin)
  exact ho.proper.lettered symbol (by rcases List.mem_append.1 hsymbol with h | h <;> simp [h])

/-- What can be read in two ways up to some point, the first time as it was written. -/
theorem rest_eq_of_ends {pre more : Sentence} (hpre : Proper reserved pre) (hne : pre ≠ [])
    (hends : ends pre = true)
    (hkeys : ∀ key ∈ keys more, key ∈ reserved → key ∉ keys pre)
    (hletters : ∀ symbol ∈ more, symbol.lettered = true)
    (hadmits : ∀ symbol ∈ pre ++ more, symbol.Admits reserved operands)
    (hfits : ∀ symbol ∈ pre, symbol.Fits operands') (hs : Writes operands pre s)
    (hr : Writes operands' pre t) (hx : Blank x) (hu : Writes operands more u)
    (hxu : StartsApart (x ++ u)) (hg : Blank g) (hy : StartsApart y)
    (heq : s ++ ((x ++ u) ++ g) = t ++ y) : (x ++ u) ++ g = y := by
  have hagrees := agrees_of_writes (g := []) (h := []) hpre
    (fun symbol hsymbol => hadmits symbol (List.mem_append_left _ hsymbol)) hfits hs hr blank_nil
    blank_nil (hxu.append hg.startsApart) hy (.inl hends) ?_ heq
  · exact hagrees.2 hne hends
  · intro z hz hin
    rw [words_append_blank hg, hx.words_append] at hz
    exact hkeys _ (mem_keys_of_mem_words hpre.letters hletters
      (fun symbol hsymbol => hadmits symbol (List.mem_append_right _ hsymbol)) hu hz hin) hin

/-- A clause that is written behind something that shows where it ends is not left out. -/
theorem Omissible.read_of_ends (ho : Omissible reserved front clause back)
    (hfront : Proper reserved front) (hne : front ≠ []) (hends : ends front = true)
    (hkeys : ∀ key ∈ keys (clause ++ back), key ∈ reserved → key ∉ keys front)
    (hadmits : ∀ symbol ∈ front ++ (clause ++ back), symbol.Admits reserved operands)
    (hs : Writes operands (front ++ (clause ++ back)) s)
    (hfits : ∀ symbol ∈ front ++ back, symbol.Fits operands')
    (hr : Writes operands' (front ++ back) t) (hg : Blank g) (hh : Blank h)
    (heq : s ++ g = t ++ h) : False := by
  obtain ⟨a, x, u, rfl, ha, hx, hxu, -, hu⟩ := exists_of_writes_append hne hs
  obtain ⟨b, y, v, rfl, hb, hy, hyv, -, hv⟩ := exists_of_writes_append hne hr
  have hrest := rest_eq_of_ends (y := (y ++ v) ++ h) hfront hne hends hkeys
    (fun symbol hsymbol => ho.proper.lettered symbol (List.mem_append_right _ hsymbol)) hadmits
    (fun symbol hsymbol => hfits symbol (List.mem_append_left _ hsymbol)) ha hb hx hu hxu hg
    (hyv.append hh.startsApart) (by simpa using heq)
  exact ho.not_behind (z := [])
    (fun symbol hsymbol => hadmits symbol (List.mem_append_right _ hsymbol))
    (fun symbol hsymbol => hfits symbol (List.mem_append_right _ hsymbol))
    hu hv hx hxu hy hg hh hrest

section Shortest

open Pattern

variable {pre : Sentence} {slot : Nat} {front' post : List Pattern} {clause' : Pattern}
  {e line : Text} {notes : Notes}

theorem strand_shortest (hpre : pre ≠ []) (hclause : clause ≠ []) :
    strand ((pre ++ [.text slot]) ++ (clause ++ back)) = (strand pre ++ [.gap]) ++
      (.capture slot (.run .any 1 .longest) :: (behind clause ++ behind back)) := by
  rw [strand_append (by simp), strand_append hpre, behind_append hclause]
  simp [behind, strand, Symbol.pieces]

/-- Behind a sentence there are blanks and an ending. -/
theorem exists_of_takesAll_ending (h : TakesAll [.space, Form.ending] s notes) :
    ∃ g e, s = g ++ e ∧ Blank g ∧ e.map foldCase ∈ Form.endings ∧ notes = [] := by
  obtain ⟨g, e, _, _, rfl, rfl, ⟨⟨-, hg⟩, rfl⟩, hlast⟩ := h
  obtain ⟨hfold, rfl⟩ := Form.takes_ending.1 (takesAll_singleton.1 hlast)
  exact ⟨g, e, rfl, hg, hfold, rfl⟩

/-- A reading with the clause is a reading of the sentence with the clause. -/
theorem takesAll_strand_of_clause (hpre : pre ≠ []) (hne : clause ≠ [])
    (hfront : front'.map Pattern.blunt = strand pre ++ [.gap])
    (hclause : clause'.blunt.strands = [behind clause])
    (hpost : post.map Pattern.blunt = behind back)
    (h : TakesAll (front' ++ (.short slot :: clause' :: (post ++ [.space, Form.ending]))) line
      notes) :
    ∃ s g e, line = s ++ (g ++ e) ∧
      TakesAll (strand ((pre ++ [.text slot]) ++ (clause ++ back))) s notes ∧ Blank g ∧
      e.map foldCase ∈ Form.endings := by
  have hboth : TakesAll ((front' ++ (.short slot :: clause' :: post)) ++ [.space, Form.ending])
      line notes := by
    simpa using h
  obtain ⟨s, r, n, _, rfl, rfl, hs, hr⟩ := takesAll_append.1 hboth
  obtain ⟨g, e, rfl, hg, he, rfl⟩ := exists_of_takesAll_ending hr
  refine ⟨s, g, e, rfl, ?_, hg, he⟩
  have hblunt := hs.blunt
  rw [List.map_append, List.map_cons, List.map_cons, hfront, hpost] at hblunt
  obtain ⟨p, q, m₁, m₂, rfl, rfl, hp, q₁, q₂, k₁, k₂, rfl, rfl, hq₁, hq₂⟩ :=
    takesAll_append.1 hblunt
  rw [strand_shortest hpre hne]
  exact takesAll_append.2 ⟨p, _, m₁, _, rfl, rfl, hp, q₁, q₂, k₁, k₂, rfl, rfl, hq₁,
    (takesAll_cons_of_strands hclause).1 hq₂⟩

/-- How a line is read without the clause: what stands before the text, the text, what stands behind
it, blanks and an ending. -/
structure LeftOut (pre back : Sentence) (line text : Text) (first later : Nat → Text)
    (r h y u g e : Text) : Prop where
  line : line = (r ++ (h ++ (text ++ ((y ++ u) ++ g)))) ++ e
  before : Writes first pre r ∧ ∀ symbol ∈ pre, symbol.Fits first
  gap : h ≠ [] ∧ Blank h
  blank : Blank y
  after : Writes later back u ∧ ∀ symbol ∈ back, symbol.Fits later
  ending : Blank g ∧ e.map foldCase ∈ Form.endings

theorem exists_leftOut {a b : Text} {n₁ n₃ : Notes} (hpre : (slots pre).Nodup)
    (hback : (slots back).Nodup) (hfront : front'.map Pattern.blunt = strand pre ++ [.gap])
    (hpost : post.map Pattern.blunt = behind back) (ha : TakesAll front' a n₁)
    (hb : TakesAll (post ++ [.space, Form.ending]) b n₃) :
    ∃ first later r h y u g e, LeftOut pre back (a ++ (t ++ b)) t first later r h y u g e ∧
      b = (y ++ u) ++ (g ++ e) := by
  have ha := ha.blunt
  rw [hfront] at ha
  obtain ⟨r, h, _, _, rfl, -, hr, hgap⟩ := takesAll_append.1 ha
  obtain ⟨⟨hlen, hh⟩, -⟩ := takesAll_singleton.1 hgap
  obtain ⟨first, hr, hfits, -⟩ := exists_writes_of_takesAll hpre hr
  obtain ⟨w, v, _, _, rfl, -, hw, hv⟩ := takesAll_append.1 hb
  obtain ⟨g, e, rfl, hg, he, -⟩ := exists_of_takesAll_ending hv
  have hw := hw.blunt
  rw [hpost] at hw
  obtain ⟨later, y, u, rfl, hy, -, hu, hfits'⟩ := exists_of_takesAll_behind hback hw
  exact ⟨first, later, r, h, y, u, g, e, ⟨by simp, ⟨hr, hfits⟩, ⟨List.length_pos_iff.1 hlen, hh⟩,
    hy, ⟨hu, hfits'⟩, ⟨hg, he⟩⟩, rfl⟩

/-- Behind a text on one line a clause can be read where it is written. -/
theorem exists_takesAll_clause (hne : clause ≠ [])
    (hclause : clause'.blunt.strands = [behind clause])
    (hpost : post.map Pattern.blunt = behind back)
    (hfits : ∀ symbol ∈ clause ++ back, symbol.Fits operands) (hx : Blank x)
    (hnil : x = [] ↔ clause ++ back = []) (hu : Writes operands (clause ++ back) u) (hg : Blank g)
    (he : e.map foldCase ∈ Form.endings) (hline : '\n' ∉ (x ++ u) ++ (g ++ e)) : ∃ notes,
      TakesAll (clause' :: (post ++ [.space, Form.ending])) ((x ++ u) ++ (g ++ e)) notes := by
  obtain ⟨notes, hclauses⟩ := takesAll_behind hx hnil hfits hu
  refine ⟨[] ++ notes, takesAll_of_blunt hline ?_⟩
  rw [List.map_cons, List.map_append, hpost]
  refine (takesAll_cons_of_strands hclause).2 ?_
  rw [← List.append_assoc, ← behind_append hne]
  refine takesAll_append.2 ⟨x ++ u, g ++ e, notes, [], rfl, rfl, hclauses, g, e, [], [], rfl, rfl,
    ⟨⟨Nat.zero_le _, hg⟩, rfl⟩, takesAll_singleton.2 ?_⟩
  exact (Form.takes_ending.2 ⟨he, rfl⟩).blunt

/-- A clause that is written behind a text which takes as little as it can is not left out: without
it the text would take more than what was written. -/
theorem Omissible.not_leftOut {first later : Nat → Text} {r h y v g' e' : Text}
    (ho : Omissible reserved (pre ++ [.text slot]) clause back) (hpre : Proper reserved pre)
    (hne : pre ≠ []) (hends : ends pre = true)
    (hkeys : ∀ key ∈ keys (.text slot :: (clause ++ back)), key ∈ reserved → key ∉ keys pre)
    (hclause : clause'.blunt.strands = [behind clause])
    (hpost : post.map Pattern.blunt = behind back)
    (hadmits : ∀ symbol ∈ pre ++ (.text slot :: (clause ++ back)), symbol.Admits reserved operands)
    (hs : Writes operands (pre ++ (.text slot :: (clause ++ back))) s) (hg : Blank g)
    (he : e.map foldCase ∈ Form.endings) (hline : '\n' ∉ s ++ (g ++ e))
    (hread : LeftOut pre back (s ++ (g ++ e)) t first later r h y v g' e')
    (hbest : ∀ a b, t ++ ((y ++ v) ++ (g' ++ e')) = a ++ b →
      (∃ noted, (Pattern.short slot).Takes a noted) →
      (∃ noted, TakesAll (clause' :: (post ++ [.space, Form.ending])) b noted) →
      t.length ≤ a.length) : False := by
  have hproper := ho.proper
  rw [List.append_assoc] at hproper
  have hmem : ∀ {symbol}, symbol ∈ clause ++ back →
      symbol ∈ pre ++ (.text slot :: (clause ++ back)) :=
    fun hsymbol => List.mem_append_right _ (List.mem_cons_of_mem _ hsymbol)
  obtain ⟨hsame, rfl⟩ := Form.ending_inj he hread.ending.2
    (show (s ++ g) ++ e = (r ++ (h ++ (t ++ ((y ++ v) ++ g')))) ++ e' by simpa using hread.line)
  -- what was written before the text is read before it
  obtain ⟨w, x, q, rfl, hw, hx, hxq, -, hq⟩ := exists_of_writes_append hne hs
  have hrest := rest_eq_of_ends hpre hne hends hkeys
    (fun symbol hsymbol => hproper.lettered symbol (List.mem_append_right _ hsymbol)) hadmits
    hread.before.2 hw hread.before.1 hx hq hxq hg
    (Blank.startsApart_append hread.gap.1 hread.gap.2 (t ++ ((y ++ v) ++ g')))
    (by simpa using hsame)
  obtain ⟨operand, x', u, rfl, hoperand, hx', hxu, hnil, hu⟩ := exists_of_writes_cons hq
  obtain rfl : operand = operands slot := hoperand
  have hadmitted : Operand reserved (operands slot) := hadmits (.text slot) (by simp)
  obtain ⟨z, rfl, hbehind⟩ := blank_append_split hread.gap.2
    (hadmitted.firm.head_append ((x' ++ u) ++ g))
    (show x ++ (operands slot ++ ((x' ++ u) ++ g)) = h ++ (t ++ ((y ++ v) ++ g')) by
      simpa using hrest)
  -- the clause could be read behind the operand
  have hshort : t.length ≤ (z ++ operands slot).length := by
    refine hbest (z ++ operands slot) ((x' ++ u) ++ (g ++ e)) ?_ ⟨_, _, ⟨⟨?_, ?_⟩, rfl⟩, rfl⟩ ?_
    · simpa using congrArg (· ++ e) hbehind
    · have hpos := List.length_pos_iff.2 hadmitted.ne_nil
      rw [List.length_append]
      omega
    · intro d hd
      refine bne_iff_ne.2 ?_
      rintro rfl
      refine hline ?_
      simp only [List.mem_append] at hd ⊢
      tauto
    · refine exists_takesAll_clause ho.clause_ne_nil hclause hpost (fun symbol hsymbol => ?_) hx'
        hnil hu hg he ?_
      · exact Symbol.fits_of_admits (hproper.modest symbol (hmem hsymbol))
          (hadmits symbol (hmem hsymbol))
      · intro hd
        refine hline ?_
        simp only [List.mem_append] at hd ⊢
        tauto
  have hover : (x' ++ u) ++ g <:+ (y ++ v) ++ g' := by
    have hlen := congrArg List.length hbehind
    have hsuffix : (x' ++ u) ++ g <:+ t ++ ((y ++ v) ++ g') :=
      ⟨z ++ operands slot, by simpa using hbehind.symm⟩
    refine List.suffix_of_suffix_length_le hsuffix (List.suffix_append _ _) ?_
    simp only [List.length_append] at hlen hshort ⊢
    omega
  obtain ⟨p, hp⟩ := hover
  exact ho.not_behind (fun symbol hsymbol => hadmits symbol (hmem hsymbol)) hread.after.2 hu
    hread.after.1 hx' hxu hread.blank hg hread.ending.1 hp

/-- A clause that is written behind a text which takes as little as it can is read. -/
theorem Omissible.read_of_shortest (ho : Omissible reserved (pre ++ [.text slot]) clause back)
    (hslots : (slots ((pre ++ [.text slot]) ++ (clause ++ back))).Nodup)
    (hpre : Proper reserved pre) (hne : pre ≠ []) (hends : ends pre = true)
    (hkeys : ∀ key ∈ keys (.text slot :: (clause ++ back)), key ∈ reserved → key ∉ keys pre)
    (hfront : front'.map Pattern.blunt = strand pre ++ [.gap])
    (hclause : clause'.blunt.strands = [behind clause])
    (hpost : post.map Pattern.blunt = behind back)
    (hprefers : Prefers (front' ++ (.short slot :: .optional clause' ::
      (post ++ [.space, Form.ending]))) (s ++ (g ++ e)) notes)
    (hadmits : ∀ symbol ∈ (pre ++ [.text slot]) ++ (clause ++ back),
      symbol.Admits reserved operands)
    (hs : Writes operands ((pre ++ [.text slot]) ++ (clause ++ back)) s) (hg : Blank g)
    (he : e.map foldCase ∈ Form.endings) (hline : '\n' ∉ s ++ (g ++ e)) :
    ∃ s' g' e', s ++ (g ++ e) = s' ++ (g' ++ e') ∧
      TakesAll (strand ((pre ++ [.text slot]) ++ (clause ++ back))) s' notes ∧ Blank g' ∧
      e'.map foldCase ∈ Form.endings := by
  rcases hprefers.optional rfl with htakes | ⟨a, t, b, n₁, n₂, n₃, hsplit, ha, ht, hb, hbest⟩
  · exact takesAll_strand_of_clause hne ho.clause_ne_nil hfront hclause hpost htakes
  · exfalso
    rw [slots, List.flatMap_append, List.nodup_append, List.flatMap_append, List.flatMap_append,
      List.nodup_append, List.nodup_append] at hslots
    obtain ⟨first, later, r, h, y, v, g', e', hread, rfl⟩ :=
      exists_leftOut hslots.1.1 hslots.2.1.2.1 hfront hpost ha hb
    rw [← hsplit] at hread
    rw [List.append_assoc] at hs hadmits
    exact ho.not_leftOut hpre hne hends hkeys hclause hpost hadmits hs hg he hline hread hbest

end Shortest

end Sentence

end Grimoire
