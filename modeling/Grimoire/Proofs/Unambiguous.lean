import Grimoire.Proofs.Sentences

/-!
# Sentences are unambiguous

Operands are texts without the words that separate them. Where a sentence is written with such
operands, a text is followed by a keyword that occurs nowhere else behind the verb; so every other
way to read the sentence finds its keywords in the same places, and the same operands between them
up to the blanks around.
-/

namespace Grimoire

open Text

/-! ## Operands -/

/-- Words are compared as texts. -/
instance decidableMemWords (w : Text) (ws : List Text) : Decidable (w ∈ ws) :=
  List.instDecidableMemOfLawfulBEq w ws

/-- A text that can be an operand where some words are reserved. -/
structure Operand (reserved : List Text) (s : Text) : Prop where
  ne_nil : s ≠ []
  trimmed : s.trim = s
  unreserved : ∀ w ∈ s.words, w.map foldCase ∉ reserved

instance (reserved : List Text) (s : Text) : Decidable (Operand reserved s) :=
  decidable_of_iff (s ≠ [] ∧ s.trim = s ∧ ∀ w ∈ s.words, w.map foldCase ∉ reserved)
    ⟨fun ⟨h₁, h₂, h₃⟩ => ⟨h₁, h₂, h₃⟩, fun ⟨h₁, h₂, h₃⟩ => ⟨h₁, h₂, h₃⟩⟩

theorem Operand.firm {reserved : List Text} {s : Text} (h : Operand reserved s) : Firm s :=
  firm_of_trim h.ne_nil h.trimmed

/-- A text that can be a limit of an interval. -/
structure Limit (s : Text) : Prop where
  points : ∀ before after, s ≠ before ++ '.' :: '.' :: after
  first : s.head? ≠ some '.'
  last : s.getLast? ≠ some '.'

/-- Between limits there is only one place for two points. -/
theorem points_append_inj {a b a' b' : Text} (ha : ∀ x y, a ≠ x ++ '.' :: '.' :: y)
    (hlast : a.getLast? ≠ some '.') (hb : ∀ x y, b ≠ x ++ '.' :: '.' :: y)
    (hfirst : b.head? ≠ some '.') (h : a ++ '.' :: '.' :: b = a' ++ '.' :: '.' :: b') :
    a = a' ∧ b = b' := by
  rcases List.append_eq_append_iff.1 h with ⟨x, rfl, hx⟩ | ⟨x, rfl, hx⟩
  · match x, hx with
    | [], hx => simpa using hx
    | [c], hx =>
      have hpoint : b = '.' :: b' := by simpa using (List.cons.inj hx).2
      rw [hpoint] at hfirst
      exact absurd rfl hfirst
    | c :: d :: x, hx =>
      have hpoints : b = x ++ '.' :: '.' :: b' := (List.cons.inj (List.cons.inj hx).2).2
      exact absurd hpoints (hb x b')
  · match x, hx with
    | [], hx => simpa [eq_comm] using hx
    | [c], hx =>
      obtain rfl : '.' = c := (List.cons.inj hx).1
      exact absurd (by simp) hlast
    | c :: d :: x, hx =>
      obtain rfl : '.' = c := (List.cons.inj hx).1
      obtain rfl : '.' = d := (List.cons.inj (List.cons.inj hx).2).1
      exact absurd rfl (ha a' x)

/-- Blanks before a limit do not matter. -/
theorem no_points_blank_append {g s : Text} (hg : Blank g)
    (hs : ∀ x y, s ≠ x ++ '.' :: '.' :: y) (x y : Text) : g ++ s ≠ x ++ '.' :: '.' :: y := by
  intro h
  rcases List.append_eq_append_iff.1 h with ⟨z, -, hz⟩ | ⟨z, rfl, hz⟩
  · exact hs z y hz
  · cases z with
    | nil => exact hs [] y hz.symm
    | cons c z =>
      obtain ⟨rfl, -⟩ := List.cons.inj hz
      exact absurd (hg '.' (by simp)) (by decide)

theorem no_points_append_blank {g s : Text} (hg : Blank g)
    (hs : ∀ x y, s ≠ x ++ '.' :: '.' :: y) (hlast : s.getLast? ≠ some '.') (x y : Text) :
    s ++ g ≠ x ++ '.' :: '.' :: y := by
  have hpoint : '.' ∉ g := fun hmem => absurd (hg _ hmem) (by decide)
  intro h
  rcases List.append_eq_append_iff.1 h with ⟨z, -, rfl⟩ | ⟨z, rfl, hz⟩
  · exact hpoint (by simp)
  · match z, hz with
    | [], hz =>
      rw [List.nil_append] at hz
      exact hpoint (hz ▸ List.mem_cons_self)
    | [c], hz =>
      obtain rfl : '.' = c := (List.cons.inj hz).1
      exact hlast (by simp)
    | c :: d :: z, hz =>
      obtain rfl : '.' = c := (List.cons.inj hz).1
      obtain rfl : '.' = d := (List.cons.inj (List.cons.inj hz).2).1
      exact hs x z rfl

namespace Symbol

/-- What operands have to be like where some words are reserved. -/
def Admits (reserved : List Text) (operands : Nat → Text) : Symbol → Prop
  | keyword _ => True
  | choice slot first second => (operands slot).map foldCase ∈
      [first.toList.map foldCase, second.toList.map foldCase]
  | text slot => Operand reserved (operands slot)
  | name slot => Operand reserved (operands slot) ∧ (operands slot).isIdentifier = true
  | path slot => Operand reserved (operands slot) ∧ (operands slot).isPath = true
  | literal slot _ => Operand reserved (operands slot) ∧ '"' ∉ operands slot
  | member first second =>
    (Operand reserved (operands first) ∧ (operands first).isIdentifier = true) ∧
      (Operand reserved (operands second) ∧ (operands second).isIdentifier = true)
  | interval first second =>
    (Operand reserved (operands first) ∧ Limit (operands first)) ∧
      (Operand reserved (operands second) ∧ Limit (operands second))

/-- Whether the keywords of a symbol consist of letters. -/
def lettered (symbol : Symbol) : Bool :=
  symbol.keys.all fun key => !key.isEmpty && key.all Char.isLower

/-- Whether a literal with one character is long enough. -/
def modest : Symbol → Bool
  | literal _ least => least ≤ 1
  | _ => true

variable {symbol : Symbol} {reserved : List Text} {operands operands' : Nat → Text}
  {s w r x y g h : Text}

/-! ### Symbols that are words -/

/-- What folds to letters is a word. -/
theorem solid_of_fold {key : Text} (hkey : (!key.isEmpty && key.all Char.isLower) = true)
    (hfold : s.map foldCase = key) : Solid s := by
  rw [Bool.and_eq_true, Bool.not_eq_true', List.all_eq_true] at hkey
  refine ⟨?_, fun c hc => isBlank_of_isLower_foldCase (hkey.2 _ (hfold ▸ List.mem_map_of_mem hc))⟩
  rintro rfl
  rw [← hfold] at hkey
  cases hkey.1

theorem solid_of_word (hne : s ≠ []) (hs : ∀ c ∈ s, isWord c = true) : Solid s :=
  ⟨hne, fun c hc => isBlank_of_isPlain (isPlain_of_isWord (hs c hc))⟩

theorem ne_nil_of_isIdentifier (hs : s.isIdentifier = true) : s ≠ [] := by
  rintro rfl
  cases hs

theorem isWord_of_takes_identifier {notes : Notes} (hs : Pattern.identifier.Takes s notes)
    {c : Char} (hc : c ∈ s) : isWord c = true := by
  obtain ⟨_, t, _, _, rfl, -, ⟨⟨d, rfl, hd⟩, -⟩, ⟨-, ht⟩, -⟩ := hs
  rcases List.mem_cons.1 hc with rfl | hc
  · rcases (Bool.or_eq_true _ _).mp hd with hd | hd
    · exact isWord_of_isLower_foldCase hd
    · rw [beq_iff_eq.1 hd]
      decide
  · exact ht c hc

/-- A path consists of characters of words and of points. -/
theorem solid_of_takes_path {notes : Notes} (hs : Pattern.Takes
    (.andThen .identifier (.many (.andThen (.keyword ".") .identifier))) s notes) : Solid s := by
  obtain ⟨t, u, _, n, rfl, -, hfirst, hrest⟩ := hs
  have hall : Repeated (Pattern.Takes (.andThen (.keyword ".") .identifier)) u n := hrest
  have hu : ∀ c ∈ u, isBlank c = false := by
    clear hrest
    induction hall with
    | none => simp
    | more first _ ih =>
      obtain ⟨p, v, _, _, rfl, -, hpoint, hname⟩ := first
      obtain ⟨rfl, -⟩ := (takes_mark (c := '.') (by decide)).1 hpoint
      intro c hc
      rw [List.mem_append, List.mem_append, List.mem_singleton] at hc
      rcases hc with (rfl | hc) | hc
      · decide
      · exact isBlank_of_isPlain (isPlain_of_isWord (isWord_of_takes_identifier hname hc))
      · exact ih c hc
  have hne : t ≠ [] := by
    obtain ⟨_, v, _, _, rfl, -, ⟨⟨d, rfl, -⟩, -⟩, -⟩ := hfirst
    exact List.cons_ne_nil d v
  refine ⟨List.append_ne_nil_of_left_ne_nil hne u, List.forall_mem_append.2 ⟨?_, hu⟩⟩
  exact fun c hc => isBlank_of_isPlain (isPlain_of_isWord (isWord_of_takes_identifier hfirst hc))

/-- Whether a symbol is a literal. -/
def isLiteral : Symbol → Bool
  | literal _ _ => true
  | _ => false

/-- A closed symbol that is no literal is written as a word. -/
theorem solid_of_writes (hclosed : symbol.closed = true) (hliteral : symbol.isLiteral = false)
    (hletters : symbol.lettered = true) (hfits : symbol.Fits operands)
    (hw : symbol.Writes operands w) : Solid w := by
  rw [lettered, List.all_eq_true] at hletters
  cases symbol with
  | keyword letters => exact solid_of_fold (hletters _ List.mem_cons_self) hw
  | choice slot first second =>
    obtain rfl : w = operands slot := hw
    exact solid_of_fold (hletters _ hfits) rfl
  | name slot =>
    obtain rfl : w = operands slot := hw
    exact solid_of_word hfits.1 hfits.2
  | path slot =>
    obtain rfl : w = operands slot := hw
    exact solid_of_takes_path hfits
  | member first second =>
    obtain rfl : w = operands first ++ '.' :: operands second := hw
    have hfirst := solid_of_word hfits.1.1 hfits.1.2
    have hsecond := solid_of_word hfits.2.1 hfits.2.2
    refine ⟨by simp, List.forall_mem_append.2 ⟨hfirst.unblank, List.forall_mem_cons.2 ⟨?_, ?_⟩⟩⟩
    · decide
    · exact hsecond.unblank
  | text | interval => cases hclosed
  | literal => cases hliteral

/-- A closed symbol begins with a character that is not blank. -/
theorem head_of_writes (hclosed : symbol.closed = true) (hletters : symbol.lettered = true)
    (hfits : symbol.Fits operands) (hw : symbol.Writes operands w) (x : Text) :
    ∃ c ∈ (w ++ x).head?, isBlank c = false := by
  cases hliteral : symbol.isLiteral with
  | false =>
    exact (solid_of_writes hclosed hliteral hletters hfits hw).firm.head_append x
  | true =>
    cases symbol with
    | literal slot least =>
      obtain rfl : w = '"' :: (operands slot ++ ['"']) := hw
      exact ⟨'"', rfl, by decide⟩
    | _ => cases hliteral

/-- Behind a closed symbol a text goes on in only one way. -/
theorem closed_append_inj (hclosed : symbol.closed = true) (hletters : symbol.lettered = true)
    (hfits : symbol.Fits operands) (hfits' : symbol.Fits operands') (hw : symbol.Writes operands w)
    (hr : symbol.Writes operands' r) (hx : StartsApart x) (hy : StartsApart y) (hg : Blank g)
    (hh : Blank h) (heq : g ++ (w ++ x) = h ++ (r ++ y)) : w = r ∧ x = y := by
  obtain ⟨-, heq⟩ := blank_append_inj hg hh (head_of_writes hclosed hletters hfits hw x)
    (head_of_writes hclosed hletters hfits' hr y) heq
  cases hliteral : symbol.isLiteral with
  | false =>
    exact solid_append_inj (solid_of_writes hclosed hliteral hletters hfits hw)
      (solid_of_writes hclosed hliteral hletters hfits' hr) hx hy heq
  | true =>
    cases symbol with
    | literal slot least =>
      obtain rfl : w = '"' :: (operands slot ++ ['"']) := hw
      obtain rfl : r = '"' :: (operands' slot ++ ['"']) := hr
      simp only [List.cons_append, List.append_assoc, List.nil_append] at heq
      obtain ⟨hsame, rfl⟩ := mark_append_inj hfits.2 hfits'.2 (List.cons.inj heq).2
      rw [hsame]
      exact ⟨rfl, rfl⟩
    | _ => cases hliteral

/-- A closed symbol that is written alike has the same operands. -/
theorem operands_eq_of_closed (hclosed : symbol.closed = true) (hfits : symbol.Fits operands)
    (hfits' : symbol.Fits operands') (hw : symbol.Writes operands w)
    (hr : symbol.Writes operands' w) : ∀ slot ∈ symbol.slots, operands' slot = operands slot := by
  cases symbol with
  | keyword letters => simp [slots]
  | choice slot | name slot | path slot =>
    intro k hk
    obtain rfl := List.mem_singleton.1 hk
    exact hr.symm.trans hw
  | literal slot least =>
    intro k hk
    obtain rfl := List.mem_singleton.1 hk
    exact List.append_cancel_right (List.cons.inj (hr.symm.trans hw)).2
  | member first second =>
    have hpoint : ∀ {t : Text}, (∀ c ∈ t, isWord c = true) → '.' ∉ t :=
      fun ht hmem => absurd (ht _ hmem) (by decide)
    obtain ⟨hfirst, hsecond⟩ :=
      mark_append_inj (hpoint hfits'.1.2) (hpoint hfits.1.2) (hr.symm.trans hw)
    intro k hk
    rcases List.mem_cons.1 hk with rfl | hk
    · exact hfirst
    · obtain rfl := List.mem_singleton.1 hk
      exact hsecond
  | text slot | interval first second => cases hclosed

/-- An open symbol that is written alike up to blanks has the same operands up to blanks. -/
theorem operands_eq_of_open (hopen : symbol.closed = false)
    (hadmits : symbol.Admits reserved operands)
    (hw : symbol.Writes operands w) (hr : symbol.Writes operands' r) (hg : Blank g) (hh : Blank h)
    (hx : Blank x) (hy : Blank y) (heq : g ++ (w ++ x) = h ++ (r ++ y)) :
    ∀ slot ∈ symbol.slots, (operands' slot).trim = (operands slot).trim := by
  cases symbol with
  | text slot =>
    intro k hk
    obtain rfl := List.mem_singleton.1 hk
    obtain rfl : w = operands k := hw
    obtain rfl : r = operands' k := hr
    have htrim := congrArg trim heq
    rw [trim_blank_append hg, trim_blank_append hh, trim_append_blank hx,
      trim_append_blank hy] at htrim
    exact htrim.symm
  | interval first second =>
    obtain ⟨⟨hfirst, hlow⟩, hsecond, hhigh⟩ := hadmits
    obtain rfl : w = operands first ++ '.' :: '.' :: operands second := hw
    obtain rfl : r = operands' first ++ '.' :: '.' :: operands' second := hr
    have heq : (g ++ operands first) ++ '.' :: '.' :: (operands second ++ x)
        = (h ++ operands' first) ++ '.' :: '.' :: (operands' second ++ y) := by
      simpa using heq
    have hlast : (g ++ operands first).getLast? ≠ some '.' := by
      rw [List.getLast?_append_of_ne_nil _ hfirst.ne_nil]
      exact hlow.last
    have hhead : (operands second ++ x).head? ≠ some '.' := by
      rw [List.head?_append_of_ne_nil _ hsecond.ne_nil]
      exact hhigh.first
    obtain ⟨hleft, hright⟩ := points_append_inj (no_points_blank_append hg hlow.points) hlast
      (no_points_append_blank hx hhigh.points hhigh.last) hhead heq
    intro k hk
    rcases List.mem_cons.1 hk with rfl | hk
    · rw [← trim_blank_append hh, ← hleft, trim_blank_append hg]
    · obtain rfl := List.mem_singleton.1 hk
      rw [← trim_append_blank hy, ← hright, trim_append_blank hx]
  | keyword | choice | name | path | literal | member => cases hopen

/-! ### Operands that fit -/

theorem takes_identifier (hs : s.isIdentifier = true) : Pattern.identifier.Takes s [] := by
  cases s with
  | nil => cases hs
  | cons c s =>
    rw [isIdentifier, Bool.and_eq_true, Bool.or_eq_true, List.all_eq_true] at hs
    have hinitial : Charset.initial.holds c = true := by
      refine (Bool.or_eq_true _ _).mpr (hs.1.imp_left fun halpha => ?_)
      have hall : ∀ n, n < 128 → (Char.ofNat n).isAlpha = true →
          (foldCase (Char.ofNat n)).isLower = true := by
        decide +kernel
      exact forall_ascii (P := fun c => c.isAlpha = true → (foldCase c).isLower = true) hall
        (toNat_lt_of_isAlpha halpha) halpha
    exact ⟨[c], s, [], [], rfl, rfl, ⟨⟨c, rfl, hinitial⟩, rfl⟩, ⟨Nat.zero_le _, hs.2⟩, rfl⟩

theorem takes_path (hs : s.isPath = true) : Pattern.Takes
    (.andThen .identifier (.many (.andThen (.keyword ".") .identifier))) s [] := by
  induction hn : s.length using Nat.strongRecOn generalizing s with
  | _ n ih =>
    by_cases hpoint : '.' ∈ s
    · obtain ⟨a, b, rfl, ha⟩ := List.eq_append_cons_of_mem hpoint
      have ha : ∀ c ∈ a, c ≠ '.' := fun c hc => ne_of_mem_of_not_mem hc ha
      rw [isPath, splitOn_append_cons ha, List.all_cons, Bool.and_eq_true] at hs
      rw [List.length_append, List.length_cons] at hn
      obtain ⟨t, u, n₁, n₂, rfl, hnotes, hfirst, hrest⟩ := ih b.length (by omega) hs.2 rfl
      obtain ⟨rfl, rfl⟩ := List.append_eq_nil_iff.1 hnotes.symm
      refine ⟨a, '.' :: (t ++ u), [], [], rfl, rfl, takes_identifier hs.1, ?_⟩
      have hpiece : Pattern.Takes (.andThen (.keyword ".") .identifier) ('.' :: t) [] :=
        ⟨['.'], t, [], [], rfl, rfl, ⟨rfl, rfl⟩, hfirst⟩
      exact Repeated.more hpiece hrest
    · rw [isPath, splitOn_eq_singleton fun c hc => ne_of_mem_of_not_mem hc hpoint, List.all_cons,
        Bool.and_eq_true] at hs
      exact ⟨s, [], [], [], (List.append_nil s).symm, rfl, takes_identifier hs.1, .none⟩

theorem fits_of_admits (hmodest : symbol.modest = true) (h : symbol.Admits reserved operands) :
    symbol.Fits operands := by
  have hword : ∀ {t : Text}, t.isIdentifier = true → t ≠ [] ∧ ∀ c ∈ t, isWord c = true :=
    fun ht => ⟨ne_nil_of_isIdentifier ht, fun c hc => isWord_of_isIdentifier ht hc⟩
  cases symbol with
  | keyword => trivial
  | choice => exact h
  | text => exact h.ne_nil
  | name => exact hword h.2
  | path => exact takes_path h.2
  | literal slot least =>
    exact ⟨Nat.le_trans (of_decide_eq_true hmodest) (List.length_pos_iff.2 h.1.ne_nil), h.2⟩
  | member => exact ⟨hword h.1.2, hword h.2.2⟩
  | interval => exact ⟨h.1.1.ne_nil, h.2.1.ne_nil⟩

theorem trim_of_admits (hletters : symbol.lettered = true) (h : symbol.Admits reserved operands) :
    ∀ slot ∈ symbol.slots, (operands slot).trim = operands slot := by
  cases symbol with
  | keyword => simp [slots]
  | choice slot first second =>
    intro k hk
    obtain rfl := List.mem_singleton.1 hk
    rw [lettered, List.all_eq_true] at hletters
    exact (solid_of_fold (hletters _ h) rfl).firm.trim_self
  | text =>
    intro k hk
    obtain rfl := List.mem_singleton.1 hk
    exact h.trimmed
  | name | path | literal =>
    intro k hk
    obtain rfl := List.mem_singleton.1 hk
    exact h.1.trimmed
  | member | interval =>
    intro k hk
    rcases List.mem_cons.1 hk with rfl | hk
    · exact h.1.1.trimmed
    · obtain rfl := List.mem_singleton.1 hk
      exact h.2.1.trimmed

/-! ### Reserved words -/

/-- A reserved word has no marks. -/
theorem not_mem_of_reserved (hreserved : ∀ key ∈ reserved, ∀ c ∈ key, c.isLower = true) {c : Char}
    (hc : (foldCase c).isLower = false) (hw : w.map foldCase ∈ reserved) : c ∉ w := by
  intro hmem
  rw [hreserved _ hw _ (List.mem_map_of_mem hmem)] at hc
  cases hc

/-- The only reserved words in a symbol are keywords. -/
theorem mem_keys_of_mem_words (hreserved : ∀ key ∈ reserved, ∀ c ∈ key, c.isLower = true)
    (hletters : symbol.lettered = true) (hadmits : symbol.Admits reserved operands)
    (hs : symbol.Writes operands s) (hw : w ∈ words s) (hfold : w.map foldCase ∈ reserved) :
    w.map foldCase ∈ symbol.keys := by
  rw [lettered, List.all_eq_true] at hletters
  have hnone : ∀ {c : Char} {a b : Text}, (foldCase c).isLower = false → s = a ++ c :: b →
      (∀ x ∈ words a, x.map foldCase ∉ reserved) → (∀ x ∈ words b, x.map foldCase ∉ reserved) →
      False := by
    rintro c a b hc rfl ha hb
    exact (mem_words_of_mark (not_mem_of_reserved hreserved hc hfold) hw).elim
      (fun hw => ha w hw hfold) fun hw => hb w hw hfold
  cases symbol with
  | keyword letters =>
    have hkey : s.map foldCase = letters.toList.map foldCase := hs
    have hsolid := solid_of_fold (hletters _ List.mem_cons_self) hkey
    rw [hsolid.words_eq, List.mem_singleton] at hw
    rw [hw, hkey]
    exact List.mem_cons_self
  | choice slot first second =>
    obtain rfl : s = operands slot := hs
    have hsolid := solid_of_fold (hletters _ hadmits) rfl
    rw [hsolid.words_eq, List.mem_singleton] at hw
    rw [hw]
    exact hadmits
  | text slot =>
    obtain rfl : s = operands slot := hs
    exact absurd hfold (hadmits.unreserved w hw)
  | name slot | path slot =>
    obtain rfl : s = operands slot := hs
    exact absurd hfold (hadmits.1.unreserved w hw)
  | literal slot least =>
    obtain rfl : s = '"' :: (operands slot ++ ['"']) := hs
    -- the quotes belong to no reserved word, so the word would be one of the operand
    refine (hnone (a := []) (c := '"') (by decide) rfl (by simp [words_nil]) ?_).elim
    intro x hx hfold
    rcases mem_words_of_mark (not_mem_of_reserved hreserved (c := '"') (by decide) hfold) hx
      with hx | hx
    · exact hadmits.1.unreserved x hx hfold
    · rw [words_nil] at hx
      cases hx
  | member first second =>
    exact (hnone (c := '.') (by decide) hs hadmits.1.1.unreserved hadmits.2.1.unreserved).elim
  | interval first second =>
    refine (hnone (c := '.') (by decide) hs hadmits.1.1.unreserved ?_).elim
    intro x hx hfold
    rcases mem_words_of_mark (a := []) (c := '.')
      (not_mem_of_reserved hreserved (by decide) hfold) hx with hx | hx
    · rw [words_nil] at hx
      cases hx
    · exact hadmits.2.1.unreserved x hx hfold

/-- What stands for a keyword is a word, and one of the keywords of the symbol. -/
theorem mem_keys_of_writes (hkeys : symbol.keys ≠ []) (hletters : symbol.lettered = true)
    (hfits : symbol.Fits operands) (hs : symbol.Writes operands s) :
    Solid s ∧ s.map foldCase ∈ symbol.keys := by
  rw [lettered, List.all_eq_true] at hletters
  have hmem : s.map foldCase ∈ symbol.keys := by
    cases symbol with
    | keyword letters => exact List.mem_singleton.2 hs
    | choice slot first second =>
      obtain rfl : s = operands slot := hs
      exact hfits
    | text | name | path | literal | member | interval => exact absurd rfl hkeys
  exact ⟨solid_of_fold (hletters _ hmem) rfl, hmem⟩

theorem keys_of_open (hopen : symbol.closed = false) : symbol.keys = [] := by
  cases symbol with
  | text | interval => rfl
  | keyword | choice | name | path | literal | member => cases hopen

end Symbol

/-! ## Sentences -/

namespace Sentence

variable {symbol : Symbol} {symbols rest : Sentence} {reserved : List Text}
  {operands operands' : Nat → Text} {s w r x y g h : Text}

/-- The first symbol of a sentence, and behind it blanks and the rest. -/
theorem exists_of_writes_cons (hs : Writes operands (symbol :: rest) s) :
    ∃ w g t, s = w ++ (g ++ t) ∧ symbol.Writes operands w ∧ Blank g ∧ StartsApart (g ++ t) ∧
      (g = [] ↔ rest = []) ∧ Writes operands rest t := by
  cases rest with
  | nil =>
    exact ⟨s, [], [], (List.append_nil s).symm, hs, blank_nil, startsApart_nil, by simp, rfl⟩
  | cons next rest =>
    obtain ⟨w, g, t, rfl, hw, ⟨hne, hg⟩, ht⟩ := hs
    exact ⟨w, g, t, rfl, hw, hg, Blank.startsApart_append hne hg t, by simp [hne], ht⟩

/-- The only reserved words in a sentence are its keywords. -/
theorem mem_keys_of_mem_words (hreserved : ∀ key ∈ reserved, ∀ c ∈ key, c.isLower = true)
    (hletters : ∀ symbol ∈ symbols, symbol.lettered = true)
    (hadmits : ∀ symbol ∈ symbols, symbol.Admits reserved operands) (hs : Writes operands symbols s)
    (hw : w ∈ words s) (hfold : w.map foldCase ∈ reserved) : w.map foldCase ∈ keys symbols := by
  induction symbols generalizing s with
  | nil =>
    rw [show s = [] from hs, words_nil] at hw
    cases hw
  | cons symbol rest ih =>
    obtain ⟨t, g, u, rfl, ht, hg, hapart, -, hu⟩ := exists_of_writes_cons hs
    obtain ⟨hletters, hletters'⟩ := List.forall_mem_cons.1 hletters
    obtain ⟨hadmits, hadmits'⟩ := List.forall_mem_cons.1 hadmits
    rw [words_append hapart, hg.words_append, List.mem_append] at hw
    rw [keys, List.flatMap_cons, List.mem_append]
    rcases hw with hw | hw
    · exact .inl (Symbol.mem_keys_of_mem_words hreserved hletters hadmits ht hw hfold)
    · exact .inr (ih hletters' hadmits' hu hw)

/-- Whether the symbols between which a text stands can be seen: behind a text there is a keyword,
it is reserved, and it does not come again. -/
def clear (reserved : List Text) : Sentence → Bool
  | symbol :: next :: rest =>
    (symbol.closed || !next.keys.isEmpty &&
        next.keys.all fun key => reserved.contains key && !(keys rest).contains key) &&
      clear reserved (next :: rest)
  | _ => true

/-- Whether it can be seen in a text where a sentence ends. -/
def ends (symbols : Sentence) : Bool :=
  symbols.getLast?.all Symbol.closed

/-- A sentence whose symbols can be told from each other. -/
structure Proper (reserved : List Text) (symbols : Sentence) : Prop where
  letters : ∀ key ∈ reserved, ∀ c ∈ key, c.isLower = true
  lettered : ∀ symbol ∈ symbols, symbol.lettered = true
  modest : ∀ symbol ∈ symbols, symbol.modest = true
  clear : symbols.clear reserved = true

instance (reserved : List Text) (symbols : Sentence) : Decidable (Proper reserved symbols) :=
  decidable_of_iff ((∀ key ∈ reserved, ∀ c ∈ key, c.isLower = true) ∧
      (∀ symbol ∈ symbols, symbol.lettered = true) ∧ (∀ symbol ∈ symbols, symbol.modest = true) ∧
      symbols.clear reserved = true)
    ⟨fun ⟨h₁, h₂, h₃, h₄⟩ => ⟨h₁, h₂, h₃, h₄⟩, fun ⟨h₁, h₂, h₃, h₄⟩ => ⟨h₁, h₂, h₃, h₄⟩⟩

theorem Proper.tail (hp : Proper reserved (symbol :: rest)) : Proper reserved rest where
  letters := hp.letters
  lettered := (List.forall_mem_cons.1 hp.lettered).2
  modest := (List.forall_mem_cons.1 hp.modest).2
  clear := by
    cases rest with
    | nil => rfl
    | cons next rest => exact ((Bool.and_eq_true _ _).mp hp.clear).2

/-- Where a text symbol ends, if a keyword follows. -/
theorem cut_of_open {next : Symbol} {v v' a b t u : Text}
    (hp : Proper reserved (symbol :: next :: rest)) (hopen : symbol.closed = false)
    (hadmits : ∀ p ∈ symbol :: next :: rest, p.Admits reserved operands)
    (hfits' : next.Fits operands') (hv : symbol.Writes operands v)
    (ht : Writes operands (next :: rest) t) (hu : Writes operands' (next :: rest) u)
    (ha : Blank a) (hane : a ≠ []) (hb : Blank b) (hbne : b ≠ []) (hg : Blank g)
    (hx : StartsApart x) (hy : StartsApart y)
    (hbehind : ∀ z ∈ words x, z.map foldCase ∈ reserved →
      z.map foldCase ∉ keys (symbol :: next :: rest))
    (heq : g ++ (v ++ (a ++ (t ++ x))) = h ++ (v' ++ (b ++ (u ++ y)))) :
    g ++ (v ++ a) = h ++ (v' ++ b) ∧ t ++ x = u ++ y := by
  have hclear : (!next.keys.isEmpty && next.keys.all fun key =>
      reserved.contains key && !(keys rest).contains key) = true := by
    have hboth := ((Bool.and_eq_true _ _).mp hp.clear).1
    rwa [hopen, Bool.false_or] at hboth
  rw [Bool.and_eq_true, List.all_eq_true, Bool.not_eq_true', List.isEmpty_eq_false_iff] at hclear
  obtain ⟨hkeys, hclear⟩ := hclear
  have hletters := hp.lettered next (by simp)
  have hfits := Symbol.fits_of_admits (hp.modest next (by simp)) (hadmits next (by simp))
  obtain ⟨k, c, t, rfl, hk, hc, hct, -, ht⟩ := exists_of_writes_cons ht
  obtain ⟨k', d, u, rfl, hk', -, hdu, -, -⟩ := exists_of_writes_cons hu
  obtain ⟨hsolid, -⟩ := Symbol.mem_keys_of_writes hkeys hletters hfits hk
  obtain ⟨hsolid', hkey'⟩ := Symbol.mem_keys_of_writes hkeys hletters hfits' hk'
  have hreserved : ∀ key ∈ next.keys, key ∈ reserved ∧ key ∉ keys rest := by
    intro key hkey
    simpa using hclear key hkey
  -- the keyword is not in the text before it
  have hfront : ∀ z ∈ words (g ++ (v ++ a)), z.map foldCase ∉ next.keys := by
    intro z hz hkey
    rw [hg.words_append, words_append_blank ha] at hz
    have hmem := Symbol.mem_keys_of_mem_words hp.letters (hp.lettered symbol (by simp))
      (hadmits symbol (by simp)) hv hz (hreserved _ hkey).1
    rw [Symbol.keys_of_open hopen] at hmem
    cases hmem
  -- and it does not come again
  have hback : ∀ z ∈ words ((c ++ t) ++ x), z.map foldCase ∉ next.keys := by
    intro z hz hkey
    rw [words_append hx, hc.words_append, List.mem_append] at hz
    rcases hz with hz | hz
    · refine (hreserved _ hkey).2 (mem_keys_of_mem_words hp.letters hp.tail.tail.lettered ?_ ht hz
        (hreserved _ hkey).1)
      exact fun p hmem => hadmits p (by simp [hmem])
    · refine hbehind z hz (hreserved _ hkey).1 ?_
      simp [keys, hkey]
  have hcut := cut_unique (P := fun z => z.map foldCase ∈ next.keys) hsolid hsolid' hkey'
    (show EndsApart (g ++ (v ++ a)) by simpa using ha.endsApart_append hane (g ++ v))
    (show EndsApart (h ++ (v' ++ b)) by simpa using hb.endsApart_append hbne (h ++ v'))
    (hct.append hx) (hdu.append hy) hfront hback (by simpa using heq)
  obtain ⟨hsame, rfl, hrest⟩ := hcut
  exact ⟨hsame, by simpa using hrest⟩

/-- A sentence that is read where it was written, give or take blanks, is read with the operands
that it was written with, give or take blanks. -/
theorem agrees_of_writes (hp : Proper reserved symbols)
    (hadmits : ∀ symbol ∈ symbols, symbol.Admits reserved operands)
    (hfits' : ∀ symbol ∈ symbols, symbol.Fits operands') (hw : Writes operands symbols w)
    (hr : Writes operands' symbols r) (hg : Blank g) (hh : Blank h) (hx : StartsApart x)
    (hy : StartsApart y) (hend : ends symbols = true ∨ Blank x ∧ Blank y)
    (hbehind : ∀ z ∈ words x, z.map foldCase ∈ reserved → z.map foldCase ∉ keys symbols)
    (heq : g ++ (w ++ x) = h ++ (r ++ y)) :
    (∀ slot ∈ slots symbols, (operands' slot).trim = (operands slot).trim) ∧
      (symbols ≠ [] → ends symbols = true → x = y) := by
  induction symbols generalizing w r g h with
  | nil => exact ⟨by simp [slots], fun hne => absurd rfl hne⟩
  | cons symbol rest ih =>
    obtain ⟨v, a, t, rfl, hv, ha, hat, haend, ht⟩ := exists_of_writes_cons hw
    obtain ⟨v', b, u, rfl, hv', hb, hbu, hbend, hu⟩ := exists_of_writes_cons hr
    obtain ⟨hsymbol, hrest⟩ := List.forall_mem_cons.1 hadmits
    obtain ⟨hfit', hfits'⟩ := List.forall_mem_cons.1 hfits'
    have hfit := Symbol.fits_of_admits (hp.modest symbol (by simp)) hsymbol
    have hlater : ∀ z ∈ words x, z.map foldCase ∈ reserved → z.map foldCase ∉ keys rest :=
      fun z hz hmem hkey => hbehind z hz hmem (List.mem_append_right _ hkey)
    have heq : g ++ (v ++ (a ++ (t ++ x))) = h ++ (v' ++ (b ++ (u ++ y))) := by
      simpa using heq
    cases hclosed : symbol.closed with
    | true =>
      obtain ⟨rfl, hgap⟩ := Symbol.closed_append_inj hclosed (hp.lettered symbol (by simp)) hfit
        hfit' hv hv' (x := a ++ (t ++ x)) (y := b ++ (u ++ y)) (by simpa using hat.append hx)
        (by simpa using hbu.append hy) hg hh heq
      have hsame := Symbol.operands_eq_of_closed hclosed hfit hfit' hv hv'
      cases rest with
      | nil =>
        obtain rfl := haend.2 rfl
        obtain rfl := hbend.2 rfl
        obtain rfl : t = [] := ht
        obtain rfl : u = [] := hu
        refine ⟨fun slot hslot => ?_, fun _ _ => hgap⟩
        rw [hsame slot (by simpa [slots] using hslot)]
      | cons next rest =>
        obtain ⟨hagrees, hxy⟩ := ih hp.tail hrest hfits' ht hu ha hb hend hlater hgap
        refine ⟨fun slot hslot => ?_, fun _ => hxy (by simp)⟩
        rcases List.mem_append.1 hslot with hslot | hslot
        · rw [hsame slot hslot]
        · exact hagrees slot hslot
    | false =>
      cases rest with
      | nil =>
        obtain rfl := haend.2 rfl
        obtain rfl := hbend.2 rfl
        obtain rfl : t = [] := ht
        obtain rfl : u = [] := hu
        have hopen : ends [symbol] = false := hclosed
        rw [hopen] at hend ⊢
        obtain ⟨hx, hy⟩ := hend.resolve_left Bool.false_ne_true
        refine ⟨fun slot hslot => ?_, by simp⟩
        exact Symbol.operands_eq_of_open hclosed hsymbol hv hv' hg hh hx hy (by simpa using heq)
          slot (by simpa [slots] using hslot)
      | cons next rest =>
        have hane : a ≠ [] := fun hnil => by simpa using haend.1 hnil
        have hbne : b ≠ [] := fun hnil => by simpa using hbend.1 hnil
        obtain ⟨hfront, hback⟩ := cut_of_open hp hclosed hadmits (hfits' next (by simp)) hv ht hu
          ha hane hb hbne hg hx hy hbehind heq
        obtain ⟨hagrees, hxy⟩ :=
          ih hp.tail hrest hfits' ht hu blank_nil blank_nil hend hlater hback
        refine ⟨fun slot hslot => ?_, fun _ => hxy (by simp)⟩
        rcases List.mem_append.1 hslot with hslot | hslot
        · exact Symbol.operands_eq_of_open hclosed hsymbol hv hv' hg hh ha hb hfront slot hslot
        · exact hagrees slot hslot

end Sentence

end Grimoire
