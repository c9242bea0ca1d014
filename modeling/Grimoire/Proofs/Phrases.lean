import Grimoire.Proofs.Grammar
import Grimoire.Proofs.Masks
import Grimoire.Proofs.Unambiguous

/-!
# Predicates in conditions

Four phrases begin with a verb. Such a phrase is read in a masked copy of the text, so the words of
the phrase are found where they were written, whatever stands in strings and brackets, and the
operands are what stood between them.
-/

namespace Grimoire

open Text

/-! ## Verbs -/

namespace Text

variable {a b k s t g : Text} {verbs : List String}

/-- Words with blanks behind each of them, in any letter case. -/
def Leads : List String → Text → Prop
  | [], a => a = []
  | verb :: verbs, a => ∃ w g b, a = w ++ (g ++ b) ∧ w.map foldCase = verb.toList.map foldCase ∧
      (g ≠ [] ∧ Blank g) ∧ Leads verbs b

/-- Whether words consist of letters. -/
def areLettered (verbs : List String) : Bool :=
  verbs.all fun verb => !verb.toList.isEmpty && (verb.toList.map foldCase).all Char.isLower

theorem solid_of_lettered {verb : String} {w : Text}
    (h : (!verb.toList.isEmpty && (verb.toList.map foldCase).all Char.isLower) = true)
    (hw : w.map foldCase = verb.toList.map foldCase) :
    Solid w ∧ ∀ c ∈ w, Nesting.delimits c = false := by
  rw [Bool.and_eq_true, Bool.not_eq_true', List.all_eq_true] at h
  have hletters : ∀ c ∈ w, (foldCase c).isLower = true := fun c hc =>
    h.2 _ (hw ▸ List.mem_map_of_mem hc)
  refine ⟨⟨?_, fun c hc => isBlank_of_isLower_foldCase (hletters c hc)⟩, fun c hc =>
    delimits_of_isPlain (isPlain_of_isWord (isWord_of_isLower_foldCase (hletters c hc)))⟩
  rintro rfl
  have hnil : verb.toList = [] := List.map_eq_nil_iff.1 hw.symm
  rw [hnil] at h
  exact absurd h.1 (by decide)

theorem Leads.plain (hverbs : areLettered verbs = true) (h : Leads verbs a) :
    ∀ c ∈ a, Nesting.delimits c = false := by
  induction verbs generalizing a with
  | nil =>
    rw [show a = [] from h]
    simp
  | cons verb verbs ih =>
    obtain ⟨w, g, b, rfl, hw, ⟨-, hg⟩, hb⟩ := h
    rw [areLettered, List.all_cons, Bool.and_eq_true] at hverbs
    simp only [List.mem_append]
    rintro c (hc | hc | hc)
    · exact (solid_of_lettered hverbs.1 hw).2 c hc
    · exact hg.plain c hc
    · exact ih hverbs.2 hb c hc

theorem Leads.head {verb : String} (hverbs : areLettered (verb :: verbs) = true)
    (h : Leads (verb :: verbs) a) (s : Text) : ∃ c ∈ (a ++ s).head?, isBlank c = false := by
  obtain ⟨w, g, b, rfl, hw, -⟩ := h
  rw [areLettered, List.all_cons, Bool.and_eq_true] at hverbs
  rw [List.append_assoc]
  exact (solid_of_lettered hverbs.1 hw).1.firm.head_append _

/-- The words at the start of a text are found where they were written. -/
theorem leads_append_inj (hverbs : areLettered verbs = true) (hne : verbs ≠ []) (ha : Leads verbs a)
    (hb : Leads verbs b) (hs : ∃ c ∈ s.head?, isBlank c = false) (h : a ++ s = b ++ t) :
    ∃ z, Blank z ∧ a = b ++ z ∧ t = z ++ s := by
  induction verbs generalizing a b with
  | nil => exact absurd rfl hne
  | cons verb verbs ih =>
    obtain ⟨w, g, x, rfl, hw, ⟨hgne, hg⟩, hx⟩ := ha
    obtain ⟨v, k, y, rfl, hv, ⟨hkne, hk⟩, hy⟩ := hb
    rw [areLettered, List.all_cons, Bool.and_eq_true] at hverbs
    obtain ⟨rfl, hbehind⟩ := solid_append_inj (solid_of_lettered hverbs.1 hw).1
      (solid_of_lettered hverbs.1 hv).1 (hg.startsApart_append hgne (x ++ s))
      (hk.startsApart_append hkne (y ++ t)) (by simpa using h)
    cases verbs with
    | nil =>
      obtain rfl : x = [] := hx
      obtain rfl : y = [] := hy
      obtain ⟨z, rfl, rfl⟩ := blank_append_split hk hs hbehind
      exact ⟨z, fun c hc => hg c (List.mem_append_right k hc), by simp, rfl⟩
    | cons verb verbs =>
      obtain ⟨rfl, hrest⟩ :=
        blank_append_inj hg hk (hx.head hverbs.2 s) (hy.head hverbs.2 t) hbehind
      obtain ⟨z, hz, rfl, rfl⟩ := ih hverbs.2 (List.cons_ne_nil verb verbs) hx hy hrest
      exact ⟨z, hz, by simp, rfl⟩

end Text

namespace Phrase

open Pattern

/-! ## Predicates -/

/-- The words that a phrase begins with, if it is a predicate. -/
def verbs : Phrase → List String
  | begins => ["Begins"]
  | ends => ["Ends"]
  | contains => ["Contains"]
  | holdsKey => ["Holds", "key"]
  | greater | less | atLeast | atMost | differs | same => []

/-- The word between the operands. -/
def link : Phrase → String
  | begins | ends => "with"
  | contains | holdsKey => "in"
  | greater | less | atLeast | atMost | differs | same => "is"

/-- Whether the right operand is a literal text. -/
def quotes : Phrase → Bool
  | begins | ends => true
  | greater | less | atLeast | atMost | differs | same | contains | holdsKey => false

/-- How the right operand is written. -/
def tail (p : Phrase) (right : Text) : Text :=
  if p.quotes then quote right else right

/-- The words, in small letters, that may not stand outside strings and brackets of an operand. -/
def reserved (p : Phrase) : List Text :=
  ["is".toList, p.link.toList]

/-- A predicate written with two operands, cut into its parts. -/
structure Cut (p : Phrase) (left right s a g k h : Text) : Prop where
  text : s = a ++ (left ++ (g ++ (k ++ (h ++ p.tail right))))
  leads : Leads p.verbs a
  gap : g ≠ [] ∧ Blank g
  link : k.map foldCase = p.link.toList.map foldCase
  gap' : h ≠ [] ∧ Blank h

/-- An operand that leaves the scan where it was and that has no reserved word outside strings and
brackets. -/
structure Clear (reserved : List Text) (s : Text) : Prop where
  ne_nil : s ≠ []
  trimmed : s.trim = s
  nested : Nested s
  unreserved : ∀ w ∈ words s.mask, w.map foldCase ∉ reserved

instance (reserved : List Text) (s : Text) : Decidable (Clear reserved s) :=
  decidable_of_iff
    (s ≠ [] ∧ s.trim = s ∧ Nested s ∧ ∀ w ∈ words s.mask, w.map foldCase ∉ reserved)
    ⟨fun ⟨h₁, h₂, h₃, h₄⟩ => ⟨h₁, h₂, h₃, h₄⟩, fun ⟨h₁, h₂, h₃, h₄⟩ => ⟨h₁, h₂, h₃, h₄⟩⟩

/-- What a predicate wants of its right operand. -/
def Admits (p : Phrase) (right : Text) : Prop :=
  if p.quotes then '"' ∉ right ∧ Nested (quote right) else Clear p.reserved right

instance (p : Phrase) (right : Text) : Decidable (p.Admits right) :=
  inferInstanceAs (Decidable (if p.quotes then _ else _))

variable {p : Phrase} {left right s a g k h : Text}

theorem lettered (p : Phrase) : areLettered (p.link :: p.verbs) = true := by
  cases p <;> decide

theorem lettered_verbs (p : Phrase) : areLettered p.verbs = true := by
  have h := p.lettered
  rw [areLettered, List.all_cons, Bool.and_eq_true] at h
  exact h.2

theorem solid_of_link (h : k.map foldCase = p.link.toList.map foldCase) :
    Solid k ∧ ∀ c ∈ k, Nesting.delimits c = false := by
  have hletters := p.lettered
  rw [areLettered, List.all_cons, Bool.and_eq_true] at hletters
  exact solid_of_lettered hletters.1 h

theorem Clear.firm {reserved : List Text} (h : Clear reserved s) : Firm s :=
  firm_of_trim h.ne_nil h.trimmed

theorem Clear.firm_mask {reserved : List Text} (h : Clear reserved s) : Firm s.mask :=
  h.nested.firm_mask h.firm

/-! ## Copies of predicates -/

theorem Admits.nested (h : p.Admits right) : Nested (p.tail right) := by
  rw [Admits] at h
  rw [tail]
  split at h
  · next hquotes =>
    rw [if_pos hquotes]
    exact h.2
  · next hquotes =>
    rw [if_neg hquotes]
    exact h.nested

theorem firm_quote (s : Text) : Firm (quote s) :=
  ⟨⟨'"', rfl, by decide⟩, '"', by rw [quote, List.getLast?_cons, List.getLast?_concat]; rfl,
    by decide⟩

theorem Admits.firm (h : p.Admits right) : Firm (p.tail right) := by
  rw [Admits] at h
  rw [tail]
  split at h
  · next hquotes =>
    rw [if_pos hquotes]
    exact firm_quote right
  · next hquotes =>
    rw [if_neg hquotes]
    exact h.firm

theorem Admits.unreserved (h : p.Admits right) :
    ∀ w ∈ words (p.tail right).mask, w.map foldCase ∉ p.reserved := by
  rw [Admits] at h
  rw [tail]
  split at h
  · next hquotes =>
    rw [if_pos hquotes, h.2.mask_quote h.1]
    have hsolid : Solid (quote (List.replicate (byteLength right) '_')) := by
      refine ⟨List.cons_ne_nil _ _, fun c hc => ?_⟩
      simp only [quote, List.mem_cons, List.mem_append, List.not_mem_nil, or_false] at hc
      rcases hc with rfl | hc | rfl
      · decide
      · rw [List.eq_of_mem_replicate hc]
        decide
      · decide
    intro w hw hin
    rw [hsolid.words_eq, List.mem_singleton] at hw
    subst hw
    have hquote : '"' ∈ (quote (List.replicate (byteLength right) '_')).map foldCase :=
      List.mem_map.2 ⟨'"', List.mem_cons_self, by decide⟩
    have hall : ∀ p : Phrase, ∀ key ∈ p.reserved, '"' ∉ key := by
      intro p
      cases p <;> decide
    exact hall p _ hin hquote
  · next hquotes =>
    rw [if_neg hquotes]
    exact h.unreserved

theorem Cut.mask (hcut : Cut p left right s a g k h) (hleft : Nested left) :
    s.mask = a ++ (left.mask ++ (g ++ (k ++ (h ++ (p.tail right).mask)))) := by
  have ha := hcut.leads.plain p.lettered_verbs
  have hk := (solid_of_link hcut.link).2
  rw [hcut.text, (nested_of_plain ha).mask_append, hleft.mask_append,
    (nested_of_plain hcut.gap.2.plain).mask_append, (nested_of_plain hk).mask_append,
    (nested_of_plain hcut.gap'.2.plain).mask_append, mask_of_plain ha,
    mask_of_plain hcut.gap.2.plain, mask_of_plain hk, mask_of_plain hcut.gap'.2.plain]

/-! ## Places in a copy -/

/-- The steps that take the right operand. -/
def tailSteps (p : Phrase) : List Pattern :=
  if p.quotes then [.keyword "\"", .capture 2 (.run (.except '"') 0 .longest), .keyword "\""]
  else [.long 2]

/-- The steps of words with blanks behind each of them. -/
def leadSteps (verbs : List String) : List Pattern :=
  verbs.flatMap fun verb => [.keyword verb, .gap]

theorem steps_pattern (hp : p.verbs ≠ []) : p.pattern.steps = leadSteps p.verbs ++
    (.long 1 :: .gap :: .keyword p.link :: .gap :: (p.tailSteps ++ [.space])) := by
  cases p <;> first | rfl | exact absurd rfl hp

theorem exists_of_laid_leads {verbs : List String} {rest : List Pattern} {place : Nat}
    {spans : List (Nat × Span)} (h : Laid (leadSteps verbs ++ rest) place s spans) :
    ∃ a t, s = a ++ t ∧ Leads verbs a ∧ Laid rest (place + a.length) t spans := by
  induction verbs generalizing s place spans with
  | nil => exact ⟨[], s, rfl, rfl, h⟩
  | cons verb verbs ih =>
    obtain ⟨w, _, _, rfl, rfl, ⟨_, hw, -⟩, g, _, later, rfl, rfl, ⟨_, ⟨hlen, hg⟩, -⟩, hrest⟩ := h
    obtain ⟨a, t, rfl, ha, ht⟩ := ih hrest
    refine ⟨w ++ (g ++ a), t, by simp, ⟨w, g, a, rfl, hw, ⟨List.length_pos_iff.1 hlen, hg⟩, ha⟩, ?_⟩
    show Laid rest (place + (w ++ (g ++ a)).length) t ((later ++ []) ++ [])
    rw [List.append_nil, List.append_nil, List.length_append, List.length_append, ← Nat.add_assoc,
      ← Nat.add_assoc]
    exact ht

/-- The middle of a predicate, found where it was written. -/
theorem middle_unique {l t t' g' k' h' z : Text} (hz : Blank z) (hl : Firm l)
    (hlw : ∀ w ∈ words l, w.map foldCase ≠ p.link.toList.map foldCase) (ht : Firm t)
    (htw : ∀ w ∈ words t, w.map foldCase ≠ p.link.toList.map foldCase) (hg : g ≠ [] ∧ Blank g)
    (hk : k.map foldCase = p.link.toList.map foldCase) (hh : h ≠ [] ∧ Blank h)
    (hg' : g' ≠ [] ∧ Blank g') (hk' : k'.map foldCase = p.link.toList.map foldCase)
    (hh' : h' ≠ [] ∧ Blank h')
    (heq : z ++ (l ++ (g ++ (k ++ (h ++ t)))) = s ++ (g' ++ (k' ++ (h' ++ t')))) :
    ∃ y w, Blank y ∧ Blank w ∧ s = z ++ (l ++ y) ∧ g = y ++ g' ∧ k' = k ∧ h = h' ++ w ∧
      t' = w ++ t := by
  have hcut := cut_unique (P := fun w => w.map foldCase = p.link.toList.map foldCase)
    (solid_of_link hk).1 (solid_of_link hk').1 hk'
    (show EndsApart (z ++ (l ++ g)) by simpa using hg.2.endsApart_append hg.1 (z ++ l))
    (hg'.2.endsApart_append hg'.1 s) (hh.2.startsApart_append hh.1 t)
    (hh'.2.startsApart_append hh'.1 t') ?_ ?_ (by simpa using heq)
  · obtain ⟨hfront, rfl, hback⟩ := hcut
    obtain ⟨w, rfl, rfl⟩ := blank_append_split hh'.2 ht.first hback
    obtain ⟨c, hc, hlast⟩ := hl.last
    obtain ⟨y, rfl, rfl⟩ := append_blank_split hg'.2
      ⟨c, by simp [List.getLast?_append, Option.mem_def.1 hc], hlast⟩
      (show (z ++ l) ++ g = s ++ g' by simpa using hfront)
    exact ⟨y, w, fun c hc => hg.2 c (List.mem_append_left _ hc),
      fun c hc => hh.2 c (List.mem_append_right _ hc), by simp, rfl, rfl, rfl, rfl⟩
  · rw [hz.words_append, words_append_blank hg.2]
    exact hlw
  · rw [hh.2.words_append]
    exact htw

/-- What is cut out for the right operand. -/
def Taken (p : Phrase) (right r : Text) : Prop :=
  if p.quotes then r = right else r.trim = right.trim

/-- The right operand, found where it was written. -/
theorem exists_of_laid_tail {w : Text} {place : Nat} {spans : List (Nat × Span)}
    (hright : p.Admits right) (hw : Blank w)
    (h : Laid (p.tailSteps ++ [.space]) place (w ++ (p.tail right).mask) spans) :
    ∃ x r r' y y', spans = [(2, ⟨place + x.length, place + x.length + r'.length⟩)] ∧
      w ++ (p.tail right).mask = x ++ (r' ++ y') ∧ w ++ p.tail right = x ++ (r ++ y) ∧
      byteLength r' = byteLength r ∧ p.Taken right r := by
  have hfirm := hright.nested.firm_mask hright.firm
  rw [Admits] at hright
  cases hquotes : p.quotes with
  | true =>
    rw [hquotes, if_pos rfl] at hright
    simp only [tailSteps, tail, Taken, hquotes, if_true] at h hfirm ⊢
    rw [hright.2.mask_quote hright.1] at h hfirm ⊢
    obtain ⟨q, _, _, hq, rfl, ⟨_, hfold, -⟩, r, _, _, rfl, rfl, ⟨_, inner, ⟨⟨-, hr⟩, -⟩, -⟩, q', _,
      _, rfl, rfl, ⟨_, hfold', -⟩, sp, _, _, rfl, rfl, -, rfl, rfl⟩ := h
    obtain rfl : q = ['"'] := eq_of_map_foldCase_eq (by decide) hfold
    obtain rfl : q' = ['"'] := eq_of_map_foldCase_eq (by decide) hfold'
    obtain rfl : w = [] := by
      cases w with
      | nil => rfl
      | cons c w =>
        obtain rfl : c = '"' := (List.cons.inj hq).1
        exact absurd (hw '"' List.mem_cons_self) (by decide)
    have hhidden : '"' ∉ List.replicate (byteLength right) '_' := fun hin =>
      absurd (List.eq_of_mem_replicate hin) (by decide)
    have hshown : '"' ∉ r := fun hin => absurd (hr '"' hin) (by decide)
    obtain ⟨rfl, -⟩ := mark_append_inj hhidden hshown
      (show List.replicate (byteLength right) '_' ++ '"' :: [] = r ++ '"' :: sp
        by simpa [quote] using hq)
    refine ⟨['"'], right, _, ['"'], ['"'], rfl, rfl, rfl, ?_, rfl⟩
    rw [byteLength_replicate]
    exact Nat.mul_one _
  | false =>
    simp only [tailSteps, tail, Taken, hquotes, Bool.false_eq_true, if_false] at h hfirm ⊢
    obtain ⟨r, _, _, hr, rfl, -, sp, _, _, rfl, rfl, ⟨_, ⟨-, hsp⟩, -⟩, rfl, rfl⟩ := h
    obtain ⟨c, hc, hlast⟩ := hfirm.last
    obtain ⟨z, hz, rfl⟩ := append_blank_split hsp
      ⟨c, by simp [List.getLast?_append, Option.mem_def.1 hc], hlast⟩
      (show (w ++ right.mask) ++ [] = r ++ sp by simpa using hr)
    obtain ⟨rfl, rfl⟩ := List.append_eq_nil_iff.1 hz.symm
    refine ⟨[], w ++ right, _, [], [], rfl, ?_, ?_, ?_, trim_blank_append hw right⟩
    · simp
    · simp
    · rw [List.append_nil, byteLength_append, byteLength_append, byteLength_mask]

theorem link_mem_reserved (p : Phrase) : p.link.toList.map foldCase ∈ p.reserved := by
  cases p <;> decide

/-- The operands of a predicate are what was written, give or take blanks. -/
theorem operands?_of_cut (hp : p.verbs ≠ []) (hcut : Cut p left right s a g k h)
    (hleft : Clear p.reserved left) (hright : p.Admits right) {found : Groups}
    (hfound : p.pattern.match? s.mask = some found) :
    ∃ l r, p.operands? s = some (l, r) ∧ l.trim = left.trim ∧ p.Taken right r := by
  have hsimple : ∀ q ∈ p.pattern.steps, q.simple = true := by
    cases p <;> first | exact absurd rfl hp | decide
  have hlaid := laid_of_match? hsimple hfound
  have hmask := hcut.mask hleft.nested
  rw [steps_pattern hp, hmask] at hlaid
  obtain ⟨a', t, hsplit, ha', hlaid⟩ := exists_of_laid_leads hlaid
  obtain ⟨z, hz, rfl, rfl⟩ := leads_append_inj p.lettered_verbs hp hcut.leads ha'
    (hleft.firm_mask.head_append _) hsplit
  obtain ⟨t₁, _, _, ht, hspans, -, h₁, _, _, rfl, rfl, ⟨_, ⟨hlen₁, hh₁⟩, -⟩, k', _, _, rfl, rfl,
    ⟨_, hk', -⟩, h₂, r, later, rfl, rfl, ⟨_, ⟨hlen₂, hh₂⟩, -⟩, hlaid⟩ := hlaid
  obtain ⟨y, w, hy, hw, rfl, rfl, rfl, rfl, rfl⟩ := middle_unique hz hleft.firm_mask
    (fun w hw heq => hleft.unreserved w hw (heq ▸ p.link_mem_reserved))
    (hright.nested.firm_mask hright.firm)
    (fun w hw heq => hright.unreserved w hw (heq ▸ p.link_mem_reserved)) hcut.gap hcut.link
    hcut.gap' ⟨List.length_pos_iff.1 hlen₁, hh₁⟩ hk' ⟨List.length_pos_iff.1 hlen₂, hh₂⟩ ht
  obtain ⟨x, r, r', v, v', rfl, hcopy, htext, hbytes, htaken⟩ := exists_of_laid_tail hright hw hlaid
  have hs : s = a' ++ ((z ++ (left ++ y)) ++ (h₁ ++ (k' ++ (h₂ ++ (x ++ (r ++ v)))))) := by
    rw [hcut.text, ← htext]
    simp
  have hm : s.mask =
      a' ++ ((z ++ (left.mask ++ y)) ++ (h₁ ++ (k' ++ (h₂ ++ (x ++ (r' ++ v')))))) := by
    rw [hmask, ← hcopy]
    simp
  have hbytes₁ : byteLength (z ++ (left.mask ++ y)) = byteLength (z ++ (left ++ y)) := by
    simp only [byteLength_append, byteLength_mask]
  obtain ⟨span₁, hspan₁, hplace₁⟩ : ∃ span, found.span? 1 = some span ∧
      span = ⟨a'.length, a'.length + (z ++ (left.mask ++ y)).length⟩ := by
    refine ⟨⟨0 + a'.length, _⟩, by rw [Groups.span?, hspans]; rfl, ?_⟩
    rw [Nat.zero_add]
  obtain ⟨span₂, hspan₂, hplace₂⟩ : ∃ span, found.span? 2 = some span ∧
      span = ⟨(a' ++ ((z ++ (left.mask ++ y)) ++ (h₁ ++ (k' ++ (h₂ ++ x))))).length,
        (a' ++ ((z ++ (left.mask ++ y)) ++ (h₁ ++ (k' ++ (h₂ ++ x))))).length + r'.length⟩ := by
    refine ⟨⟨_, _⟩, by rw [Groups.span?, hspans]; rfl, ?_⟩
    simp only [List.length_append, Nat.zero_add, Nat.add_assoc]
  have hleft₁ : operand s s.mask span₁ = z ++ (left ++ y) :=
    operand_eq hs hm hplace₁ rfl hbytes₁
  have hright₂ : operand s s.mask span₂ = r := by
    refine operand_eq
      (show s = (a' ++ ((z ++ (left ++ y)) ++ (h₁ ++ (k' ++ (h₂ ++ x))))) ++ (r ++ v)
        by rw [hs]; simp) (show s.mask = _ ++ (r' ++ v') by rw [hm]; simp) hplace₂ ?_ hbytes
    simp only [byteLength_append, byteLength_mask]
  refine ⟨z ++ (left ++ y), r, ?_, ?_, htaken⟩
  · rw [← hleft₁, ← hright₂]
    simp only [operands?, hfound, hspan₁, hspan₂, Option.bind_eq_bind, Option.bind_some]
    rfl
  · rw [trim_blank_append hz, trim_append_blank hy]

/-! ## Readings of predicates -/

theorem takes_long {slot : Nat} {notes : Notes} :
    (Pattern.long slot).Takes s notes ↔ (s ≠ [] ∧ '\n' ∉ s) ∧ notes = [(slot, s)] := by
  constructor
  · rintro ⟨_, ⟨⟨hlen, hline⟩, rfl⟩, rfl⟩
    exact ⟨⟨List.length_pos_iff.1 hlen, fun hin => absurd (hline '\n' hin) (by decide)⟩, rfl⟩
  · rintro ⟨⟨hne, hline⟩, rfl⟩
    refine ⟨[], ⟨⟨List.length_pos_iff.2 hne, fun c hc => bne_iff_ne.2 ?_⟩, rfl⟩, rfl⟩
    rintro rfl
    exact hline hc

theorem takesAll_leadSteps {verbs : List String} {a : Text} (h : Leads verbs a) :
    TakesAll (leadSteps verbs) a [] := by
  induction verbs generalizing a with
  | nil => exact ⟨h, rfl⟩
  | cons verb verbs ih =>
    obtain ⟨w, g, b, rfl, hw, ⟨hne, hg⟩, hb⟩ := h
    exact ⟨w, g ++ b, [], [], rfl, rfl, ⟨hw, rfl⟩, g, b, [], [], rfl, rfl,
      ⟨⟨List.length_pos_iff.2 hne, hg⟩, rfl⟩, ih hb⟩

/-- A text that can be read as the right operand of a phrase. -/
def Tail (p : Phrase) (t : Text) : Prop :=
  if p.quotes then ∃ u, t = quote u ∧ '"' ∉ u else t ≠ [] ∧ '\n' ∉ t

theorem Tail.exists_takesAll {t : Text} (h : p.Tail t) : ∃ notes, TakesAll p.tailSteps t notes := by
  rw [Tail] at h
  rw [tailSteps]
  split at h
  · next hquotes =>
    obtain ⟨u, rfl, hu⟩ := h
    rw [if_pos hquotes]
    refine ⟨_, ['"'], u ++ ['"'], [], _, rfl, rfl, ⟨rfl, rfl⟩, u, ['"'], [(2, u)], [], rfl, rfl,
      ⟨[], ⟨⟨Nat.zero_le _, fun c hc => bne_iff_ne.2 ?_⟩, rfl⟩, rfl⟩,
      takesAll_singleton.2 ⟨rfl, rfl⟩⟩
    rintro rfl
    exact hu hc
  · next hquotes =>
    rw [if_neg hquotes]
    exact ⟨_, takesAll_singleton.2 (takes_long.2 ⟨h, rfl⟩)⟩

theorem Admits.tail_mask (h : p.Admits right) (hline : '\n' ∉ p.tail right) :
    p.Tail (p.tail right).mask := by
  have hfirm := h.nested.firm_mask h.firm
  rw [Admits] at h
  rw [Tail]
  split at h
  · next hquotes =>
    rw [if_pos hquotes, tail, if_pos hquotes, h.2.mask_quote h.1]
    exact ⟨_, rfl, fun hin => absurd (List.eq_of_mem_replicate hin) (by decide)⟩
  · next hquotes =>
    rw [if_neg hquotes]
    exact ⟨hfirm.ne_nil, fun hin => (mem_of_mem_maskFrom hin).elim hline (by decide)⟩

theorem takesAll_link {rest : List Pattern} {notes : Notes} (hg : g ≠ [] ∧ Blank g)
    (hk : k.map foldCase = p.link.toList.map foldCase) (hh : h ≠ [] ∧ Blank h)
    (ht : TakesAll rest s notes) :
    TakesAll (.gap :: .keyword p.link :: .gap :: rest) (g ++ (k ++ (h ++ s)))
      (((notes ++ []) ++ []) ++ []) :=
  ⟨g, _, [], _, rfl, rfl, ⟨⟨List.length_pos_iff.2 hg.1, hg.2⟩, rfl⟩, k, _, [], _, rfl, rfl,
    ⟨hk, rfl⟩, h, s, [], notes, rfl, rfl, ⟨⟨List.length_pos_iff.2 hh.1, hh.2⟩, rfl⟩, ht⟩

/-- What can be read behind the left operand makes a reading of the whole. -/
theorem exists_takesAll_front {l t : Text} {rest : List Pattern} {notes : Notes}
    (ha : Leads p.verbs s) (hl : l ≠ [] ∧ '\n' ∉ l) (ht : TakesAll rest t notes) :
    ∃ all, TakesAll (leadSteps p.verbs ++ (.long 1 :: rest)) (s ++ (l ++ t)) all :=
  ⟨_, takesAll_append.2 ⟨s, _, [], _, rfl, rfl, takesAll_leadSteps ha, l, t, [(1, l)], notes, rfl,
    rfl, takes_long.2 ⟨hl, rfl⟩, ht⟩⟩

/-- A phrase takes the copy of a predicate. -/
theorem exists_match?_of_cut (hp : p.verbs ≠ []) (hcut : Cut p left right s a g k h)
    (hleft : Clear p.reserved left) (hright : p.Admits right) (hline : '\n' ∉ s) :
    ∃ found, p.pattern.match? s.mask = some found := by
  have hsteady : p.pattern.steady = true := by cases p <;> rfl
  rw [hcut.text] at hline
  simp only [List.mem_append, not_or] at hline
  have hspace : TakesAll [.space] [] [] :=
    takesAll_singleton.2 ⟨⟨Nat.zero_le _, blank_nil⟩, rfl⟩
  have hleft' : '\n' ∉ left.mask := fun hin =>
    (mem_of_mem_maskFrom hin).elim hline.2.1 (by decide)
  obtain ⟨notes, htail⟩ := (hright.tail_mask hline.2.2.2.2.2).exists_takesAll
  obtain ⟨all, htakes⟩ := exists_takesAll_front hcut.leads ⟨hleft.firm_mask.ne_nil, hleft'⟩
    (takesAll_link hcut.gap hcut.link hcut.gap' (takesAll_append.2
      ⟨_, [], notes, [], (List.append_nil _).symm, rfl, htail, hspace⟩))
  rw [← steps_pattern hp, ← hcut.mask hleft.nested] at htakes
  exact exists_match?_of_takes hsteady (takes_iff_steps.2 htakes)

/-! ## No other phrase -/

theorem mem_words_leads_append {verbs : List String} {a t w : Text}
    (hverbs : areLettered verbs = true) (h : Leads verbs a) (hw : w ∈ words (a ++ t)) :
    w.map foldCase ∈ verbs.map (fun verb => verb.toList.map foldCase) ∨ w ∈ words t := by
  induction verbs generalizing a with
  | nil =>
    obtain rfl : a = [] := h
    exact .inr hw
  | cons verb verbs ih =>
    obtain ⟨v, g, b, rfl, hv, ⟨hne, hg⟩, hb⟩ := h
    rw [areLettered, List.all_cons, Bool.and_eq_true] at hverbs
    rw [List.append_assoc, List.append_assoc, words_append_gap hg hne,
      (solid_of_lettered hverbs.1 hv).1.words_eq, List.mem_append, List.mem_singleton] at hw
    rcases hw with rfl | hw
    · rw [hv]
      exact .inl List.mem_cons_self
    · exact (ih hverbs.2 hb hw).imp_left (List.mem_cons_of_mem _)

theorem leads_of_takesAll {verbs : List String} {a : Text} {notes : Notes}
    (h : TakesAll (leadSteps verbs) a notes) : Leads verbs a := by
  induction verbs generalizing a notes with
  | nil => exact h.1
  | cons verb verbs ih =>
    obtain ⟨w, _, _, _, rfl, -, ⟨hw, -⟩, g, b, _, _, rfl, -, ⟨⟨hlen, hg⟩, -⟩, hb⟩ := h
    exact ⟨w, g, b, rfl, hw, ⟨List.length_pos_iff.1 hlen, hg⟩, ih hb⟩

/-- A phrase that is no predicate has the word `is`. -/
theorem exists_is_of_match? {q : Phrase} {found : Groups} (hq : q.verbs = [])
    (h : q.pattern.match? s = some found) : ∃ w ∈ words s, w.map foldCase = "is".toList := by
  obtain ⟨first, rest, hsteps⟩ : ∃ first rest,
      q.pattern.steps = first :: .gap :: .keyword "is" :: .gap :: rest := by
    cases q <;> first | exact ⟨_, _, rfl⟩ | exact absurd hq (by decide)
  obtain ⟨notes, htakes, -⟩ := exists_takes_of_match? h
  rw [takes_iff_steps, hsteps] at htakes
  obtain ⟨t, _, _, _, rfl, -, -, g, _, _, _, rfl, -, ⟨⟨hlen, hg⟩, -⟩, k, _, _, _, rfl, -, ⟨hk, -⟩,
    h, r, _, _, rfl, -, ⟨⟨hlen', hh⟩, -⟩, -⟩ := htakes
  have hsolid : Solid k :=
    Symbol.solid_of_fold (by decide) (show k.map foldCase = "is".toList from hk)
  refine ⟨k, ?_, hk⟩
  rw [← List.append_assoc]
  exact mem_words hsolid (Blank.endsApart_append (List.length_pos_iff.1 hlen) hg t)
    (Blank.startsApart_append (List.length_pos_iff.1 hlen') hh r)

/-- Predicates begin with different words. -/
theorem eq_of_leads {q : Phrase} {a b t t' : Text} (hp : p.verbs ≠ []) (hq : q.verbs ≠ [])
    (ha : Leads p.verbs a) (hb : Leads q.verbs b) (h : a ++ t = b ++ t') : p = q := by
  have hsame : ∀ p q : Phrase, ∀ verb ∈ p.verbs.head?, ∀ verb' ∈ q.verbs.head?,
      verb.toList.map foldCase = verb'.toList.map foldCase → p = q := by
    intro p q
    cases p <;> cases q <;> decide
  have hletters := p.lettered_verbs
  have hletters' := q.lettered_verbs
  obtain ⟨verb, verbs, hverbs⟩ := List.exists_cons_of_ne_nil hp
  obtain ⟨verb', verbs', hverbs'⟩ := List.exists_cons_of_ne_nil hq
  rw [hverbs] at ha hletters
  rw [hverbs'] at hb hletters'
  obtain ⟨w, g, b, rfl, hw, ⟨hgne, hg⟩, -⟩ := ha
  obtain ⟨v, k, c, rfl, hv, ⟨hkne, hk⟩, -⟩ := hb
  rw [areLettered, List.all_cons, Bool.and_eq_true] at hletters hletters'
  obtain ⟨rfl, -⟩ := solid_append_inj (solid_of_lettered hletters.1 hw).1
    (solid_of_lettered hletters'.1 hv).1 (hg.startsApart_append hgne (b ++ t))
    (hk.startsApart_append hkne (c ++ t')) (by simpa using h)
  exact hsame p q verb (by rw [hverbs]; rfl) verb' (by rw [hverbs']; rfl) (hw.symm.trans hv)

/-- No other phrase takes the copy of a predicate. -/
theorem match?_eq_none_of_cut (hp : p.verbs ≠ []) (hcut : Cut p left right s a g k h)
    (hleft : Clear p.reserved left) (hright : p.Admits right) {q : Phrase} (hq : q ≠ p) :
    q.pattern.match? s.mask = none := by
  rw [Option.eq_none_iff_forall_ne_some]
  intro found hfound
  have hmask := hcut.mask hleft.nested
  by_cases hverbs : q.verbs = []
  · -- the word `is` is nowhere
    obtain ⟨w, hw, his⟩ := exists_is_of_match? hverbs hfound
    have hlink := (solid_of_link hcut.link).1
    have hall : ∀ p : Phrase, p.verbs ≠ [] → "is".toList ∉ p.link.toList.map foldCase ::
        p.verbs.map fun verb => verb.toList.map foldCase := by
      intro p
      cases p <;> decide
    have hreserved : w.map foldCase ∈ p.reserved := by
      rw [his]
      exact List.mem_cons_self
    rw [hmask] at hw
    rcases mem_words_leads_append p.lettered_verbs hcut.leads hw with hverb | hw
    · rw [his] at hverb
      exact hall p hp (List.mem_cons_of_mem _ hverb)
    rw [words_append_gap hcut.gap.2 hcut.gap.1, words_append_gap hcut.gap'.2 hcut.gap'.1,
      hlink.words_eq, List.mem_append, List.mem_append, List.mem_singleton] at hw
    rcases hw with hw | rfl | hw
    · exact hleft.unreserved w hw hreserved
    · rw [hcut.link] at his
      exact hall p hp (his ▸ List.mem_cons_self)
    · exact hright.unreserved w hw hreserved
  · have hsteps := steps_pattern hverbs
    obtain ⟨notes, htakes, -⟩ := exists_takes_of_match? hfound
    rw [takes_iff_steps, hsteps] at htakes
    obtain ⟨b, t, _, _, hsplit, -, hb, -⟩ := takesAll_append.1 htakes
    exact hq
      (eq_of_leads hp hverbs hcut.leads (leads_of_takesAll hb) (hmask.symm.trans hsplit)).symm

/-! ## The condition -/

theorem Cut.firm (hp : p.verbs ≠ []) (hcut : Cut p left right s a g k h)
    (hright : Firm (p.tail right)) : Firm s := by
  obtain ⟨c, hc, hlast⟩ := hright.last
  obtain ⟨verb, verbs, hverbs⟩ := List.exists_cons_of_ne_nil hp
  have hletters := p.lettered_verbs
  have hleads := hcut.leads
  rw [hverbs] at hletters hleads
  rw [hcut.text]
  exact ⟨hleads.head hletters _, c, by simp [List.getLast?_append, Option.mem_def.1 hc], hlast⟩

theorem find?_of_cut (hp : p.verbs ≠ []) (hcut : Cut p left right s a g k h)
    (hleft : Clear p.reserved left) (hright : p.Admits right) (hline : '\n' ∉ s) :
    ∃ l r, find? s = some (p, l, r) ∧ l.trim = left.trim ∧ p.Taken right r := by
  obtain ⟨found, hfound⟩ := exists_match?_of_cut hp hcut hleft hright hline
  obtain ⟨l, r, hoperands, hl, hr⟩ := operands?_of_cut hp hcut hleft hright hfound
  refine ⟨l, r, ?_, hl, hr⟩
  have hnone : ∀ q, q ≠ p → (q.operands? s).map (q, ·) = none := by
    intro q hq
    rw [operands?, match?_eq_none_of_cut hp hcut hleft hright hq]
    rfl
  have hmem : p ∈ inOrder := by cases p <;> decide
  have hsome : (find? s).isSome = true := by
    rw [find?, List.isSome_findSome?, List.any_eq_true]
    exact ⟨p, hmem, by rw [hoperands]; rfl⟩
  obtain ⟨x, hx⟩ := Option.isSome_iff_exists.1 hsome
  obtain ⟨q, -, hq⟩ := List.exists_of_findSome?_eq_some hx
  by_cases hsame : q = p
  · subst hsame
    rw [hx, ← hq, hoperands]
    rfl
  · rw [hnone q hsame] at hq
    cases hq

end Phrase

/-! ## Values of operands -/

theorem Expr.ofText_congr {s t : Text} (h : s.trim = t.trim) : Expr.ofText s = Expr.ofText t := by
  rw [Expr.ofText_eq_assemble, Expr.ofText_eq_assemble, h]

namespace Eval

variable {s t : Text}

theorem value_congr (h : s.trim = t.trim) : value s = value t := by
  rw [value, value, Expr.ofText_congr h]

theorem display_congr (h : s.trim = t.trim) : display s = display t := by
  rw [display, display, value_congr h]

end Eval

namespace Phrase

variable {p : Phrase} {left right l r s a g k h : Text}

theorem test_congr (hp : p.verbs ≠ []) (hl : l.trim = left.trim) (hr : p.Taken right r) :
    Condition.test p l r = Condition.test p left right := by
  have hvalue := Eval.value_congr hl
  have hdisplay := Eval.display_congr hl
  rw [Taken] at hr
  cases p with
  | begins | ends =>
    rw [show r = right from hr, Condition.test, Condition.test, hdisplay]
  | contains | holdsKey =>
    have hright : Eval.value r = Eval.value right := Eval.value_congr hr
    rw [Condition.test, Condition.test, hvalue, hright]
  | greater | less | atLeast | atMost | differs | same => exact absurd rfl hp

/-- A predicate holds where its test holds of the operands that were written. -/
theorem holds_of_cut (hp : p.verbs ≠ []) (hcut : Cut p left right s a g k h)
    (hleft : Clear p.reserved left) (hright : p.Admits right) (hline : '\n' ∉ s) :
    Eval.holds s = Condition.test p left right := by
  obtain ⟨l, r, hfind, hl, hr⟩ := find?_of_cut hp hcut hleft hright hline
  have hread : Condition.ofText s = .phrase p l r := by
    rw [Condition.ofText, (hcut.firm hp hright.firm).trim_self, hfind]
  rw [Eval.holds, hread]
  exact test_congr hp hl hr

end Phrase

end Grimoire
