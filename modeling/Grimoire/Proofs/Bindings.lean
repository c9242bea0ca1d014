import Grimoire.Proofs.Dispatch

/-!
# Lines that bind

A name is bound by a line with `is` between the name and the text of its value, and a path is set by
a line that begins with `Set`. Whatever the text is, such a line is read in only one way: neither a
name nor a path goes over a blank, the keyword is the word behind it, and the ending is the last word
of the line, so between the two stands the text, with more blanks around it or fewer.
-/

namespace Grimoire

open Text

namespace Text

/-- The line that binds a name to the value of a text. -/
def assigning (name text : Text) : Text :=
  name ++ (" is ".toList ++ (text ++ " ok".toList))

/-- The line that sets a path to the value of a text. -/
def setting (path text : Text) : Text :=
  "Set ".toList ++ (path ++ (" to ".toList ++ (text ++ " ok".toList)))

variable {name : Text}

theorem trim_assigning (hname : Solid name) (text : Text) :
    (assigning name text).trim = assigning name text := by
  have hsame : assigning name text =
      name ++ ((" is ".toList ++ (text ++ [' '])) ++ "ok".toList) := by
    simp [assigning]
  rw [hsame]
  exact (hname.firm.append _ (Form.firm_of_ending (by decide))).trim_self

theorem trim_setting (path text : Text) : (setting path text).trim = setting path text := by
  have hfirm : Firm (setting path text) := by
    have hsame : setting path text =
        ("Set ".toList ++ (path ++ (" to ".toList ++ text))) ++ " ok".toList := by
      simp [setting]
    refine ⟨⟨'S', rfl, by decide⟩, 'k', ?_, by decide⟩
    rw [hsame, List.getLast?_append]
    rfl
  exact hfirm.trim_self

/-- A line that binds a name is run. -/
theorem isIdle_assigning (hne : name ≠ []) (hname : ∀ c ∈ name, isWord c = true) (text : Text) :
    (assigning name text).isIdle = false := by
  have htrim := trim_assigning (Symbol.solid_of_word hne hname) text
  obtain ⟨c, rest, rfl⟩ := List.exists_cons_of_ne_nil hne
  refine isIdle_cons ?_ htrim
  rintro rfl
  exact absurd (hname '/' List.mem_cons_self) (by decide)

/-- A line that sets a path is run. -/
theorem isIdle_setting (path text : Text) : (setting path text).isIdle = false :=
  isIdle_cons (by decide) (trim_setting path text)

end Text

namespace Form

variable {form : Form} {name path text : Text}

/-- A form whose text slots go over lines takes every line on which one of its sentences is
written. -/
theorem exists_match?_of_writes_lines (hform : form ≠ .deed .reveal)
    (hlines : ∀ s notes, form.phrase.blunt.Takes s notes → form.phrase.Takes s notes)
    {symbols : Sentence} (hsymbols : symbols ∈ form.sentences) {operands : Nat → Text} {s g e : Text}
    (hs : symbols.Writes operands s) (hfits : ∀ symbol ∈ symbols, symbol.Fits operands)
    (hg : Blank g) (he : e.map foldCase ∈ endings) :
    ∃ found, form.pattern.match? (s ++ (g ++ e)) = some found := by
  have hstrand := Sentence.takesAll_of_writes hfits hs
  have hblunt := Pattern.takes_iff_strands.2
    ⟨symbols.strand, strands_phrase hform ▸ List.mem_map_of_mem hsymbols, hstrand⟩
  exact Pattern.exists_match?_of_takes (steady_pattern hform)
    ((takes_pattern hform).2 ⟨s, g, e, rfl, hlines s _ hblunt, hg, he⟩)

/-- What stands between a blank and the ending of a line is the text there, up to blanks around. -/
theorem trim_eq_of_tail {g t g' e : Text} (hg : Blank g) (hg' : Blank g')
    (he : e.map foldCase ∈ endings)
    (h : ' ' :: (text ++ " ok".toList) = g ++ (t ++ (g' ++ e))) : t.trim = text.trim := by
  have hok : "ok".toList.map foldCase ∈ endings := by decide
  have hblank : Blank [' '] := by decide
  have hsplit : ([' '] ++ (text ++ [' '])) ++ "ok".toList = (g ++ (t ++ g')) ++ e := by
    simpa using h
  obtain ⟨hsame, -⟩ := ending_inj hok he hsplit
  have htrim := congrArg Text.trim hsame
  rw [trim_blank_append hblank, trim_append_blank hblank, trim_blank_append hg,
    trim_append_blank hg'] at htrim
  exact htrim.symm

/-- A word behind blanks is found where it was written. -/
theorem word_inj {k k' r r' a : Text} (hk : Solid k) (hr : StartsApart r) (ha : Blank a)
    (hk' : Solid k') (hr' : StartsApart r') (h : ' ' :: (k ++ r) = a ++ (k' ++ r')) :
    k = k' ∧ r = r' := by
  have hgap : Blank [' '] := by decide
  obtain ⟨-, hrest⟩ := blank_append_inj hgap ha (hk.firm.head_append r) (hk'.firm.head_append r') h
  exact solid_append_inj hk hk' hr hr' hrest

/-! ## Names -/

/-- How a line that binds a name is read. -/
theorem find?_assigning (hne : name ≠ []) (hname : ∀ c ∈ name, isWord c = true) (text : Text) :
    ∃ found, find? (assigning name text) = some (.computation .assign, found) ∧
      found.text 1 = name ∧ (found.text 2).trim = text.trim := by
  have hsolid : Solid name := Symbol.solid_of_word hne hname
  have hgap : Blank [' '] := by decide
  obtain ⟨found, hfound⟩ : ∃ found,
      (computation .assign).pattern.match? (assigning name text) = some found := by
    have hlines : ∀ s notes, (computation .assign).phrase.blunt.Takes s notes →
        (computation .assign).phrase.Takes s notes := fun _ _ h => h
    have hwrites : Sentence.Writes (fun slot => if slot = 1 then name else text ++ [' '])
        [.name 1, .keyword "is", .text 2] (name ++ (" is ".toList ++ (text ++ [' ']))) :=
      ⟨name, [' '], _, rfl, rfl, ⟨by simp, hgap⟩,
        "is".toList, [' '], _, rfl, rfl, ⟨by simp, hgap⟩, rfl⟩
    have hline : assigning name text =
        (name ++ (" is ".toList ++ (text ++ [' ']))) ++ ([] ++ "ok".toList) := by
      simp [assigning]
    rw [hline]
    refine exists_match?_of_writes_lines (by decide) hlines List.mem_cons_self hwrites ?_ blank_nil
      (by decide)
    intro symbol hsymbol
    rcases List.mem_cons.1 hsymbol with rfl | hsymbol
    · exact ⟨hne, hname⟩
    rcases List.mem_cons.1 hsymbol with rfl | hsymbol
    · trivial
    obtain rfl := List.mem_singleton.1 hsymbol
    exact List.append_ne_nil_of_right_ne_nil text (List.cons_ne_nil ' ' [])
  refine ⟨found, ?_, ?_⟩
  · -- the form is the first of the catalogue
    rw [find?, trim_assigning hsolid, catalogue, List.findSome?_cons, hfound]
    rfl
  -- the form may read its sentence in the line otherwise than it was written
  obtain ⟨symbols, hsymbols, operands, s, g, e, hreads⟩ := exists_reads_of_match? (by decide) hfound
  obtain rfl : symbols = [.name 1, .keyword "is", .text 2] := List.mem_singleton.1 hsymbols
  obtain ⟨w, a, u, rfl, hw, ⟨hane, ha⟩, k, b, x, rfl, hk, ⟨hbne, hb⟩, hx⟩ := hreads.writes
  obtain rfl : w = operands 1 := hw
  obtain rfl : x = operands 2 := hx
  have hfits := hreads.fits (.name 1) List.mem_cons_self
  have hkey : Solid k := Symbol.solid_of_fold (by decide) (show k.map foldCase = "is".toList from hk)
  have hread : name ++ ' ' :: ("is".toList ++ ' ' :: (text ++ " ok".toList)) =
      operands 1 ++ (a ++ (k ++ (b ++ (operands 2 ++ (g ++ e))))) := by
    have hline := hreads.line
    rw [assigning] at hline
    simpa using hline
  obtain ⟨hsame, hread⟩ := solid_append_inj hsolid (Symbol.solid_of_word hfits.1 hfits.2)
    (hgap.startsApart_append (by simp) _) (ha.startsApart_append hane _) hread
  have hlink : Solid "is".toList := Symbol.solid_of_word (by decide) (by decide)
  obtain ⟨-, hread⟩ := word_inj hlink (hgap.startsApart_append (by simp) _) ha hkey
    (hb.startsApart_append hbne _) hread
  have hone : found.text 1 = operands 1 := hreads.text (by decide)
  have htwo : found.text 2 = operands 2 := hreads.text (by decide)
  exact ⟨hone.trans hsame.symm, htwo ▸ trim_eq_of_tail hb hreads.blank hreads.ending hread⟩

/-! ## Paths -/

/-- How a line that sets a path is read. A line whose path is `is` is none, for it binds the name
`Set`. -/
theorem find?_setting (hpath : path.isPath = true) (his : path.map foldCase ≠ "is".toList)
    (text : Text) :
    ∃ found, find? (setting path text) = some (.deed .setPath, found) ∧
      found.text 1 = path ∧ (found.text 2).trim = text.trim := by
  have hsolid : Solid path := Symbol.solid_of_takes_path (Symbol.takes_path hpath)
  have hgap : Blank [' '] := by decide
  have hverb : Solid "Set".toList := Symbol.solid_of_word (by decide) (by decide)
  obtain ⟨found, hfound⟩ : ∃ found,
      (deed .setPath).pattern.match? (setting path text) = some found := by
    have hlines : ∀ s notes, (deed .setPath).phrase.blunt.Takes s notes →
        (deed .setPath).phrase.Takes s notes := fun _ _ h => h
    have hwrites : Sentence.Writes (fun slot => if slot = 1 then path else text ++ [' '])
        [.keyword "Set", .path 1, .keyword "to", .text 2]
        ("Set ".toList ++ (path ++ (" to ".toList ++ (text ++ [' '])))) :=
      ⟨"Set".toList, [' '], _, rfl, rfl, ⟨by simp, hgap⟩, path, [' '], _, rfl, rfl,
        ⟨by simp, hgap⟩, "to".toList, [' '], _, rfl, rfl, ⟨by simp, hgap⟩, rfl⟩
    have hline : setting path text =
        ("Set ".toList ++ (path ++ (" to ".toList ++ (text ++ [' '])))) ++ ([] ++ "ok".toList) := by
      simp [setting]
    rw [hline]
    refine exists_match?_of_writes_lines (by decide) hlines List.mem_cons_self hwrites ?_ blank_nil
      (by decide)
    intro symbol hsymbol
    rcases List.mem_cons.1 hsymbol with rfl | hsymbol
    · trivial
    rcases List.mem_cons.1 hsymbol with rfl | hsymbol
    · exact Symbol.takes_path hpath
    rcases List.mem_cons.1 hsymbol with rfl | hsymbol
    · trivial
    obtain rfl := List.mem_singleton.1 hsymbol
    exact List.append_ne_nil_of_right_ne_nil text (List.cons_ne_nil ' ' [])
  refine ⟨found, find?_eq_some ((trim_setting path text).symm ▸ hfound) fun other hother => ?_, ?_⟩
  · -- no other form begins with `Set`, and to bind the name `Set` takes `is` behind it
    have hsame : setting path text =
        "Set".toList ++ ([' '] ++ (path ++ (" to ".toList ++ (text ++ " ok".toList)))) := by
      simp [setting]
    rw [trim_setting, hsame]
    have hkeyword : "Set".toList.map foldCase = (deed .setPath).verb := by decide
    refine match?_eq_none_of_verb (by decide) (by decide) hkeyword hgap (by simp)
      (hsolid.firm.head_append _) ?_ hother
    intro k b hk hb hsplit hfold
    obtain ⟨rfl, -⟩ := solid_append_inj hsolid hk (hgap.startsApart_append (by simp) _) hb hsplit
    exact his hfold
  obtain ⟨symbols, hsymbols, operands, s, g, e, hreads⟩ := exists_reads_of_match? (by decide) hfound
  obtain rfl : symbols = [.keyword "Set", .path 1, .keyword "to", .text 2] :=
    List.mem_singleton.1 hsymbols
  obtain ⟨v, a, _, rfl, hv, ⟨hane, ha⟩, w, b, _, rfl, hw, ⟨hbne, hb⟩, k, c, x, rfl, hk,
    ⟨hcne, hc⟩, hx⟩ := hreads.writes
  obtain rfl : w = operands 1 := hw
  obtain rfl : x = operands 2 := hx
  have hfits := hreads.fits (.path 1) (by simp)
  have hset : Solid v := Symbol.solid_of_fold (by decide) (show v.map foldCase = "set".toList from hv)
  have hkey : Solid k := Symbol.solid_of_fold (by decide) (show k.map foldCase = "to".toList from hk)
  have hread : "Set".toList ++ ' ' :: (path ++ ' ' :: ("to".toList ++ ' ' ::
      (text ++ " ok".toList))) =
      v ++ (a ++ (operands 1 ++ (b ++ (k ++ (c ++ (operands 2 ++ (g ++ e))))))) := by
    have hline := hreads.line
    rw [setting] at hline
    simpa using hline
  obtain ⟨-, hread⟩ := solid_append_inj hverb hset (hgap.startsApart_append (by simp) _)
    (ha.startsApart_append hane _) hread
  obtain ⟨hsame, hread⟩ := word_inj hsolid (hgap.startsApart_append (by simp) _) ha
    (Symbol.solid_of_takes_path hfits) (hb.startsApart_append hbne _) hread
  have hlink : Solid "to".toList := Symbol.solid_of_word (by decide) (by decide)
  obtain ⟨-, hread⟩ := word_inj hlink (hgap.startsApart_append (by simp) _) hb hkey
    (hc.startsApart_append hcne _) hread
  have hone : found.text 1 = operands 1 := hreads.text (by decide)
  have htwo : found.text 2 = operands 2 := hreads.text (by decide)
  exact ⟨hone.trans hsame.symm, htwo ▸ trim_eq_of_tail hc hreads.blank hreads.ending hread⟩

end Form

end Grimoire
