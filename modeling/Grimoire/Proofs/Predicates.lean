import Grimoire.Proofs.Dispatch
import Grimoire.Proofs.Phrases
import Grimoire.Proofs.Targets

/-!
# Predicates in statements

The four phrases that begin with a verb have statements that bind whether they hold to a name. A
statement is read in the line as it stands: the literal text at its end can be told from the rest,
but a text is taken to begin behind the last word between the operands, even inside a string. Where
the right operand does not have that word the statement binds what the condition says.
-/

namespace Grimoire

open Text Pattern

namespace Phrase

/-- The statement that binds whether a predicate holds. -/
def statement? : Phrase → Option Computation
  | begins => some .beginsInto
  | ends => some .endsInto
  | contains => some .containsInto
  | holdsKey => some .holdsKeyInto
  | greater | less | atLeast | atMost | differs | same => none

/-- The steps behind the operands of such a statement. -/
def bindSteps : List Pattern :=
  [.gap, .keyword "into", .gap, .name 3, .space, Form.ending]

variable {p : Phrase} {c : Computation} {left right s a g k h line v r t : Text} {notes : Notes}

theorem verbs_of_statement? (hc : p.statement? = some c) : p.verbs ≠ [] := by
  cases p <;> first | exact List.cons_ne_nil _ _ | cases hc

theorem steps_statement (hc : p.statement? = some c) : (Form.computation c).pattern.steps =
    leadSteps p.verbs ++
      (.long 1 :: .gap :: .keyword p.link :: .gap :: (p.tailSteps ++ bindSteps)) := by
  cases p <;> first | cases hc; rfl | cases hc

/-! ## Lines -/

/-- The end of a line that binds a name, cut into its parts. -/
structure Into (v t a w b c e : Text) : Prop where
  text : t = a ++ (w ++ (b ++ (v ++ (c ++ e))))
  gap : a ≠ [] ∧ Blank a
  into : w.map foldCase = "into".toList
  gap' : b ≠ [] ∧ Blank b
  name : v ≠ [] ∧ ∀ d ∈ v, isWord d = true
  space : Blank c
  ending : e.map foldCase ∈ Form.endings

theorem takesAll_bindSteps : TakesAll bindSteps t notes ↔
    ∃ v a w b c e, Into v t a w b c e ∧ notes = [(3, v)] := by
  constructor
  · rintro ⟨a, _, _, _, rfl, rfl, ⟨⟨hlen, ha⟩, rfl⟩, w, _, _, _, rfl, rfl, ⟨hw, rfl⟩, b, _, _, _,
      rfl, rfl, ⟨⟨hlen', hb⟩, rfl⟩, v, _, _, _, rfl, rfl, ⟨_, ⟨⟨hv, hword⟩, rfl⟩, rfl⟩, c, _, _, _,
      rfl, rfl, ⟨⟨-, hc⟩, rfl⟩, he⟩
    obtain ⟨hend, rfl⟩ := Form.takes_ending.1 (takesAll_singleton.1 he)
    exact ⟨v, a, w, b, c, _, ⟨rfl, ⟨List.length_pos_iff.1 hlen, ha⟩, hw,
      ⟨List.length_pos_iff.1 hlen', hb⟩, ⟨List.length_pos_iff.1 hv, hword⟩, hc, hend⟩, rfl⟩
  · rintro ⟨v, a, w, b, c, e, ⟨rfl, ⟨hane, ha⟩, hw, ⟨hbne, hb⟩, ⟨hvne, hv⟩, hc, he⟩, rfl⟩
    exact ⟨a, _, [], _, rfl, rfl, ⟨⟨List.length_pos_iff.2 hane, ha⟩, rfl⟩, w, _, [], _, rfl, rfl,
      ⟨hw, rfl⟩, b, _, [], _, rfl, rfl, ⟨⟨List.length_pos_iff.2 hbne, hb⟩, rfl⟩, v, _, [(3, v)], [],
      rfl, rfl, ⟨[], ⟨⟨List.length_pos_iff.2 hvne, hv⟩, rfl⟩, rfl⟩, c, e, [], [], rfl, rfl,
      ⟨⟨Nat.zero_le _, hc⟩, rfl⟩, takesAll_singleton.2 (Form.takes_ending.2 ⟨he, rfl⟩)⟩

/-- The name at the end of a line, and what stands before the end. -/
theorem Into.unique {v' t' a' w' b' c' e' x x' w b d e : Text} (h : Into v t a w b d e)
    (h' : Into v' t' a' w' b' c' e') (heq : x ++ t = x' ++ t') : v = v' ∧ x ++ a = x' ++ a' := by
  have hsolid : Solid v := Symbol.solid_of_word h.name.1 h.name.2
  have hsolid' : Solid v' := Symbol.solid_of_word h'.name.1 h'.name.2
  have hinto : ∀ {w : Text}, w.map foldCase = "into".toList → Solid w :=
    fun hw => Symbol.solid_of_fold (by decide) hw
  rw [h.text, h'.text] at heq
  obtain ⟨hback, -⟩ := Form.ending_inj h.ending h'.ending
    (show (x ++ (a ++ (w ++ (b ++ (v ++ d))))) ++ e =
      (x' ++ (a' ++ (w' ++ (b' ++ (v' ++ c'))))) ++ e' by simpa using heq)
  obtain ⟨hback', rfl⟩ := append_word_inj hsolid hsolid'
    (show EndsApart (x ++ (a ++ (w ++ b))) by
      simpa using h.gap'.2.endsApart_append h.gap'.1 (x ++ (a ++ w)))
    (show EndsApart (x' ++ (a' ++ (w' ++ b'))) by
      simpa using h'.gap'.2.endsApart_append h'.gap'.1 (x' ++ (a' ++ w')))
    h.space h'.space (by simpa using hback)
  obtain ⟨hfront, -⟩ := append_word_inj (hinto h.into) (hinto h'.into)
    (show EndsApart (x ++ a) from h.gap.2.endsApart_append h.gap.1 x)
    (show EndsApart (x' ++ a') from h'.gap.2.endsApart_append h'.gap.1 x')
    h.gap'.2 h'.gap'.2 (by simpa using hback')
  exact ⟨rfl, hfront⟩

/-- What the right operand is read as. -/
theorem exists_of_takesAll_tailSteps (h : TakesAll p.tailSteps t notes) :
    ∃ r, t = p.tail r ∧ notes = [(2, r)] ∧ (p.quotes = true → '"' ∉ r) := by
  rw [tailSteps] at h
  split at h
  · next hquotes =>
    obtain ⟨q, _, _, _, rfl, rfl, ⟨hq, rfl⟩, r, _, _, _, rfl, rfl, ⟨_, ⟨⟨-, hr⟩, rfl⟩, rfl⟩, q', _,
      _, _, rfl, rfl, ⟨hq', rfl⟩, rfl, rfl⟩ := h
    obtain rfl : q = ['"'] := eq_of_map_foldCase_eq (by decide) hq
    obtain rfl : q' = ['"'] := eq_of_map_foldCase_eq (by decide) hq'
    exact ⟨r, by rw [tail, if_pos hquotes]; rfl, rfl, fun _ hin => absurd (hr '"' hin) (by decide)⟩
  · next hquotes =>
    obtain ⟨-, rfl⟩ := takes_long.1 (takesAll_singleton.1 h)
    exact ⟨t, by rw [tail, if_neg hquotes], rfl, fun h => absurd h hquotes⟩

/-! ## Operands of statements -/

/-- Operands between which the line can be cut only in one way as late as possible. -/
structure Last (p : Phrase) (left right : Text) : Prop where
  left : Firm left
  right : if p.quotes then '"' ∉ right
    else Firm right ∧ ∀ w ∈ words right, w.map foldCase ≠ p.link.toList.map foldCase

theorem exists_blank_of_append {z t₁ h₁ : Text} (hleft : Firm left) (hg : Blank g) (hh₁ : Blank h₁)
    (h : z ++ (left ++ g) = t₁ ++ h₁) : ∃ y, Blank y ∧ t₁ = z ++ (left ++ y) := by
  obtain ⟨c, hc, hlast⟩ := hleft.last
  obtain ⟨y, rfl, rfl⟩ := append_blank_split hh₁
    (show ∃ c ∈ (z ++ left).getLast?, isBlank c = false from
      ⟨c, by simp [List.getLast?_append, Option.mem_def.1 hc], hlast⟩)
    (show (z ++ left) ++ g = t₁ ++ h₁ by simpa using h)
  exact ⟨y, fun d hd => hg d (List.mem_append_left h₁ hd), by simp⟩

/-- A literal text at the end can be told from the rest. -/
theorem operands_of_quotes {z t₁ k' h₁ h₂ a b : Text} (hquotes : p.quotes = true)
    (hlast : Last p left right) (hg : g ≠ [] ∧ Blank g)
    (hk : k.map foldCase = p.link.toList.map foldCase) (hh : h ≠ [] ∧ Blank h)
    (hh₁ : h₁ ≠ [] ∧ Blank h₁) (hk' : k'.map foldCase = p.link.toList.map foldCase)
    (hh₂ : h₂ ≠ [] ∧ Blank h₂) (hr : '"' ∉ r) (ha : Blank a) (hb : Blank b)
    (heq : (z ++ (left ++ (g ++ (k ++ (h ++ p.tail right))))) ++ a =
      (t₁ ++ (h₁ ++ (k' ++ (h₂ ++ p.tail r)))) ++ b) :
    r = right ∧ ∃ y, Blank y ∧ t₁ = z ++ (left ++ y) := by
  have hright := hlast.right
  rw [if_pos hquotes] at hright
  rw [tail, tail, if_pos hquotes, if_pos hquotes] at heq
  have hend : ∀ {x s : Text}, ∃ c ∈ (x ++ quote s).getLast?, isBlank c = false := by
    intro x s
    rw [List.getLast?_append_of_ne_nil _ (firm_quote s).ne_nil]
    exact (firm_quote s).last
  obtain ⟨hsame, -⟩ := append_blank_inj ha hb
    (show ∃ c ∈ ((z ++ (left ++ (g ++ (k ++ h)))) ++ quote right).getLast?, isBlank c = false
      from hend)
    (show ∃ c ∈ ((t₁ ++ (h₁ ++ (k' ++ h₂))) ++ quote r).getLast?, isBlank c = false from hend)
    (by simpa using heq)
  have hmarks : (z ++ (left ++ (g ++ (k ++ h)))) ++ '"' :: right =
      (t₁ ++ (h₁ ++ (k' ++ h₂))) ++ '"' :: r := by
    rw [← List.append_cancel_right_eq _ ['"']]
    simpa [quote] using hsame
  obtain ⟨hfront, rfl⟩ := append_mark_inj hright hr hmarks
  obtain ⟨hback, -⟩ := append_word_inj (solid_of_link hk).1 (solid_of_link hk').1
    (show EndsApart (z ++ (left ++ g)) by simpa using hg.2.endsApart_append hg.1 (z ++ left))
    (show EndsApart (t₁ ++ h₁) from hh₁.2.endsApart_append hh₁.1 t₁) hh.2 hh₂.2
    (by simpa using hfront)
  obtain ⟨y, hy, ht⟩ := exists_blank_of_append hlast.left hg.2 hh₁.2 hback
  exact ⟨rfl, y, hy, ht⟩

/-- A text at the end begins behind the last word between the operands. -/
theorem operands_of_last {z t₁ k' h₁ h₂ a b : Text} (hquotes : p.quotes = false)
    (hlast : Last p left right) (hg : g ≠ [] ∧ Blank g)
    (hk : k.map foldCase = p.link.toList.map foldCase) (hh : h ≠ [] ∧ Blank h)
    (hh₁ : h₁ ≠ [] ∧ Blank h₁) (hk' : k'.map foldCase = p.link.toList.map foldCase)
    (hh₂ : h₂ ≠ [] ∧ Blank h₂) (ha : Blank a) (hb : Blank b)
    (hlong : (z ++ left).length ≤ t₁.length)
    (heq : (z ++ (left ++ (g ++ (k ++ (h ++ p.tail right))))) ++ a =
      (t₁ ++ (h₁ ++ (k' ++ (h₂ ++ p.tail r)))) ++ b) :
    r.trim = right.trim ∧ ∃ y, Blank y ∧ t₁ = z ++ (left ++ y) := by
  have hright := hlast.right
  rw [if_neg (by simp [hquotes])] at hright
  simp only [tail, hquotes, Bool.false_eq_true, if_false] at heq
  have hbegins : z ++ left <+: t₁ := by
    have hall : z ++ left <+: (t₁ ++ (h₁ ++ (k' ++ (h₂ ++ r)))) ++ b :=
      heq ▸ ⟨(g ++ (k ++ (h ++ right))) ++ a, by simp⟩
    exact List.prefix_of_prefix_length_le hall ⟨(h₁ ++ (k' ++ (h₂ ++ r))) ++ b, by simp⟩ hlong
  obtain ⟨x, rfl⟩ := hbegins
  have hbehind : g ++ (k ++ (h ++ (right ++ a))) = (x ++ h₁) ++ (k' ++ (h₂ ++ (r ++ b))) := by
    simpa using heq
  obtain ⟨hfront, -, hback⟩ := cut_unique
    (P := fun w => w.map foldCase = p.link.toList.map foldCase)
    (solid_of_link hk).1 (solid_of_link hk').1 hk' hg.2.endsApart
    (hh₁.2.endsApart_append hh₁.1 x) (hh.2.startsApart_append hh.1 (right ++ a))
    (hh₂.2.startsApart_append hh₂.1 (r ++ b)) (by simp [hg.2.words_eq])
    (by rw [hh.2.words_append, words_append_blank ha]; exact hright.2) hbehind
  have hx : Blank x := fun d hd => hg.2 d (hfront ▸ List.mem_append_left h₁ hd)
  refine ⟨?_, x, hx, by simp⟩
  have htrim := congrArg Text.trim hback
  rw [trim_blank_append hh.2, trim_blank_append hh₂.2, trim_append_blank ha, trim_append_blank hb]
    at htrim
  exact htrim.symm

theorem Last.tail (hlast : Last p left right) (hline : '\n' ∉ p.tail right) :
    p.Tail (p.tail right) := by
  have hright := hlast.right
  rw [Phrase.tail] at hline ⊢
  rw [Tail]
  split at hright
  · next hquotes =>
    rw [if_pos hquotes, if_pos hquotes]
    exact ⟨right, rfl, hright⟩
  · next hquotes =>
    rw [if_neg hquotes] at hline ⊢
    rw [if_neg hquotes]
    exact ⟨hright.1.ne_nil, hline⟩

/-- What stands behind the left operand can be read there. -/
theorem exists_takesAll_behind {b d e w x : Text} (hcut : Cut p left right s a g k h)
    (hlast : Last p left right) (hinto : Into v t x w b d e) (hline : '\n' ∉ s ++ t) :
    ∃ notes, TakesAll (.gap :: .keyword p.link :: .gap :: (p.tailSteps ++ bindSteps))
      (g ++ (k ++ (h ++ (p.tail right ++ t)))) notes := by
  have htail : '\n' ∉ p.tail right := by
    intro hin
    refine hline ?_
    rw [hcut.text]
    simp only [List.mem_append]
    tauto
  obtain ⟨notes, hright⟩ := (hlast.tail htail).exists_takesAll
  exact ⟨_, takesAll_link hcut.gap hcut.link hcut.gap' (takesAll_append.2
    ⟨p.tail right, t, notes, _, rfl, rfl, hright,
      takesAll_bindSteps.2 ⟨v, x, w, b, d, e, hinto, rfl⟩⟩)⟩

/-- What a statement reads. -/
theorem read_of_match? {b d e w x : Text} (hc : p.statement? = some c)
    (hcut : Cut p left right s a g k h) (hlast : Last p left right) (hinto : Into v t x w b d e)
    (hline : '\n' ∉ s ++ t) {found : Groups}
    (hfound : (Form.computation c).pattern.match? (s ++ t) = some found) :
    (found.text 1).trim = left.trim ∧ p.Taken right (found.text 2) ∧ found.text 3 = v := by
  have hp := verbs_of_statement? hc
  obtain ⟨notes, hprefers, hget⟩ :=
    exists_prefers_of_match? (Form.steady_pattern (by simp)) hfound
  rw [steps_statement hc] at hprefers
  obtain ⟨a', _, n₀, _, hsplit, rfl, ha', l, _, _, _, rfl, rfl, hl, hrest, hbest⟩ := hprefers.append
  obtain ⟨hl, rfl⟩ := takes_long.1 hl
  obtain ⟨h₁, _, _, _, rfl, rfl, ⟨⟨hlen₁, hh₁⟩, rfl⟩, k', _, _, _, rfl, rfl, ⟨hk', rfl⟩, h₂, _, _,
    _, rfl, rfl, ⟨⟨hlen₂, hh₂⟩, rfl⟩, htail⟩ := hrest.takesAll
  obtain ⟨q, u, _, _, rfl, rfl, hq, hu⟩ := takesAll_append.1 htail
  obtain ⟨r, rfl, rfl, hr⟩ := exists_of_takesAll_tailSteps hq
  obtain ⟨v', x', w', b', d', e', hinto', rfl⟩ := takesAll_bindSteps.1 hu
  -- the words at the start are where they were written
  rw [hcut.text] at hsplit
  obtain ⟨z, hz, rfl, hbehind⟩ := leads_append_inj p.lettered_verbs hp hcut.leads
    (leads_of_takesAll ha')
    (hlast.left.head_append ((g ++ (k ++ (h ++ p.tail right))) ++ t))
    (by simpa using hsplit)
  obtain ⟨rfl, hoperands⟩ := hinto.unique hinto'
    (show (z ++ (left ++ (g ++ (k ++ (h ++ p.tail right))))) ++ t =
      (l ++ (h₁ ++ (k' ++ (h₂ ++ p.tail r)))) ++ u by simpa using hbehind.symm)
  have htexts : (found.text 1 = l ∧ found.text 2 = r) ∧ found.text 3 = v := by
    simp only [Groups.text, hget]
    exact ⟨⟨rfl, rfl⟩, rfl⟩
  obtain ⟨⟨h₁', h₂'⟩, h₃⟩ := htexts
  rw [h₁', h₂', h₃]
  have hleft : ∀ {y}, Blank y → (z ++ (left ++ y)).trim = left.trim := fun hy => by
    rw [trim_blank_append hz, trim_append_blank hy]
  cases hquotes : p.quotes with
  | true =>
    obtain ⟨rfl, y, hy, rfl⟩ := operands_of_quotes hquotes hlast hcut.gap hcut.link hcut.gap'
      ⟨List.length_pos_iff.1 hlen₁, hh₁⟩ hk' ⟨List.length_pos_iff.1 hlen₂, hh₂⟩ (hr hquotes)
      hinto.gap.2 hinto'.gap.2 hoperands
    exact ⟨hleft hy, by rw [Taken, if_pos hquotes], rfl⟩
  | false =>
    have hlong : (z ++ left).length ≤ l.length := by
      refine hbest .longest rfl (z ++ left) (g ++ (k ++ (h ++ (p.tail right ++ t)))) ?_
        ⟨_, takes_long.2 ⟨⟨?_, ?_⟩, rfl⟩⟩ ?_
      · simpa using hbehind
      · exact List.append_ne_nil_of_right_ne_nil z hlast.left.ne_nil
      · intro hin
        refine hline ?_
        rw [hcut.text]
        simp only [List.mem_append] at hin ⊢
        tauto
      · exact exists_takesAll_behind hcut hlast hinto hline
    obtain ⟨htrim, y, hy, rfl⟩ := operands_of_last hquotes hlast hcut.gap hcut.link hcut.gap'
      ⟨List.length_pos_iff.1 hlen₁, hh₁⟩ hk' ⟨List.length_pos_iff.1 hlen₂, hh₂⟩ hinto.gap.2
      hinto'.gap.2 hlong hoperands
    exact ⟨hleft hy, by rw [Taken, if_neg (by simp [hquotes])]; exact htrim, rfl⟩

/-! ## The form of the line -/

/-- The first word of the left operand is not `is`. -/
theorem not_is_of_clear (hleft : Clear p.reserved left) (hg : g ≠ [] ∧ Blank g) {w b : Text}
    (hw : Solid w) (hb : StartsApart b) (hsplit : left ++ (g ++ t) = w ++ b) :
    w.map foldCase ≠ "is".toList := by
  intro his
  have hplain : ∀ c ∈ w, Nesting.delimits c = false := by
    have hall : ∀ c ∈ "is".toList, c.isLower = true := by decide
    intro c hc
    refine delimits_of_isPlain (isPlain_of_isWord (isWord_of_isLower_foldCase (hall _ ?_)))
    rw [← his]
    exact List.mem_map_of_mem hc
  obtain ⟨y, rfl, hy⟩ : ∃ y, left = w ++ y ∧ StartsApart y := by
    rcases List.append_eq_append_iff.1 hsplit with ⟨y, rfl, hy⟩ | ⟨y, rfl, hy⟩
    · cases y with
      | nil => exact ⟨[], by simp, startsApart_nil⟩
      | cons d y =>
        have hblank := hg.2.startsApart_append hg.1 t d (by rw [hy]; rfl)
        rw [hw.unblank d (by simp)] at hblank
        cases hblank
    · exact ⟨y, rfl, (hy ▸ hb).of_append⟩
  refine hleft.unreserved w (mem_words_mask hw hplain hy) ?_
  rw [his]
  exact List.mem_cons_self

/-- No other form takes a line that begins with a predicate. -/
theorem match?_eq_none_of_statement (hc : p.statement? = some c)
    (hcut : Cut p left right s a g k h) (hleft : Clear p.reserved left) (t : Text) {other : Form}
    (hother : other ≠ .computation c) : other.pattern.match? (s ++ t) = none := by
  have hverb : ∀ verb ∈ p.verbs.head?, (Form.computation c).verb = verb.toList.map foldCase := by
    cases p <;> first | cases hc; decide | cases hc
  have hassign : Form.computation c ≠ .computation .assign := by
    cases p <;> first | cases hc; decide | cases hc
  have hsentences : (Form.computation c).sentences ≠ [] := by
    cases p <;> first | cases hc; decide | cases hc
  have hkey : ∀ verb ∈ p.verbs, verb.toList.map foldCase ≠ "is".toList := by
    cases p <;> decide
  obtain ⟨verb, verbs, hverbs⟩ := List.exists_cons_of_ne_nil (verbs_of_statement? hc)
  have hleads := hcut.leads
  have hletters := p.lettered_verbs
  rw [hverbs] at hleads hletters hkey hverb
  obtain ⟨w, z, b, rfl, hw, ⟨hzne, hz⟩, hb⟩ := hleads
  rw [areLettered, List.all_cons, Bool.and_eq_true] at hletters
  rw [hcut.text]
  have hline := Form.match?_eq_none_of_verb (g := z)
    (t := b ++ ((left ++ (g ++ (k ++ (h ++ p.tail right)))) ++ t)) hassign hsentences
    (hw.trans (hverb verb rfl).symm) hz hzne ?_ ?_ hother
  · simpa using hline
  · cases verbs with
    | nil =>
      obtain rfl : b = [] := hb
      rw [List.nil_append, List.append_assoc]
      exact hleft.firm.head_append _
    | cons verb' verbs => exact hb.head hletters.2 _
  · intro k' b' hk' hb' hsplit
    cases verbs with
    | nil =>
      obtain rfl : b = [] := hb
      exact not_is_of_clear hleft hcut.gap hk' hb'
        (show left ++ (g ++ ((k ++ (h ++ p.tail right)) ++ t)) = k' ++ b' by simpa using hsplit)
    | cons verb' verbs =>
      obtain ⟨w', z', b'', rfl, hw', ⟨hzne', hz'⟩, -⟩ := hb
      have hnext := hletters.2
      rw [List.all_cons, Bool.and_eq_true] at hnext
      obtain ⟨rfl, -⟩ := solid_append_inj hk' (solid_of_lettered hnext.1 hw').1 hb'
        (hz'.startsApart_append hzne' _) (show k' ++ b' = w' ++ (z' ++ (b'' ++
          ((left ++ (g ++ (k ++ (h ++ p.tail right)))) ++ t))) by simpa using hsplit.symm)
      rw [hw']
      exact hkey verb' (by simp)

theorem isIdle_of_leads {verb : String} {verbs : List String} {a x : Text}
    (hverbs : areLettered (verb :: verbs) = true) (h : Leads (verb :: verbs) a)
    (htrim : (a ++ x).trim = a ++ x) : (a ++ x).isIdle = false := by
  obtain ⟨w, g, b, rfl, hw, -⟩ := h
  rw [areLettered, List.all_cons, Bool.and_eq_true] at hverbs
  obtain ⟨hsolid, -⟩ := solid_of_lettered hverbs.1 hw
  obtain ⟨c, w, rfl⟩ := List.exists_cons_of_ne_nil hsolid.ne_nil
  have hslash : c ≠ '/' := by
    rintro rfl
    have hletters := hverbs.1
    rw [← hw, Bool.and_eq_true, List.map_cons, List.all_cons, Bool.and_eq_true] at hletters
    exact absurd hletters.2.1 (by decide)
  exact isIdle_cons hslash htrim

/-- The line has the form of the statement. -/
theorem find?_of_into {b d e w x left' right' a' g' k' h' : Text} (hc : p.statement? = some c)
    (hcut : Cut p left right s a g k h) (hleft : Clear p.reserved left)
    (hcut' : Cut p left' right' s a' g' k' h') (hlast : Last p left' right')
    (hinto : Into v t x w b d e) (hline : '\n' ∉ s ++ t) :
    (s ++ t).isIdle = false ∧ ∃ found, Form.find? (s ++ t) = some (.computation c, found) ∧
      (found.text 1).trim = left'.trim ∧ p.Taken right' (found.text 2) ∧ found.text 3 = v := by
  have hsteady := Form.steady_pattern (show Form.computation c ≠ .deed .reveal by simp)
  obtain ⟨verb, verbs, hverbs⟩ := List.exists_cons_of_ne_nil (verbs_of_statement? hc)
  have hleads := hcut.leads
  have hletters := p.lettered_verbs
  rw [hverbs] at hleads hletters
  have hfirm : Firm (s ++ t) := by
    obtain ⟨f, hf, hend⟩ := (Form.firm_of_ending hinto.ending).last
    refine ⟨?_, f, ?_, hend⟩
    · rw [hcut.text, List.append_assoc]
      exact hleads.head hletters _
    · rw [hinto.text]
      simp [List.getLast?_append, Option.mem_def.1 hf]
  have hleft' : '\n' ∉ left' := by
    intro hin
    refine hline ?_
    rw [hcut'.text]
    simp only [List.mem_append]
    tauto
  obtain ⟨notes, hbehind⟩ := exists_takesAll_behind hcut' hlast hinto hline
  obtain ⟨all, htakes⟩ := exists_takesAll_front hcut'.leads ⟨hlast.left.ne_nil, hleft'⟩ hbehind
  rw [← steps_statement hc, ← takes_iff_steps] at htakes
  obtain ⟨found, hfound⟩ := exists_match?_of_takes hsteady htakes
  have htext : a' ++ (left' ++ (g' ++ (k' ++ (h' ++ (p.tail right' ++ t))))) = s ++ t := by
    rw [hcut'.text]
    simp
  rw [htext] at hfound
  have hform : Form.find? (s ++ t) = some (.computation c, found) := by
    refine Form.find?_eq_some ?_ fun other hother => ?_
    · rw [hfirm.trim_self]
      exact hfound
    · rw [hfirm.trim_self]
      exact match?_eq_none_of_statement hc hcut hleft t hother
  have htrim := hfirm.trim_self
  rw [hcut.text, List.append_assoc] at htrim
  have hidle := isIdle_of_leads hletters hleads htrim
  rw [← List.append_assoc, ← hcut.text] at hidle
  exact ⟨hidle, found, hform, read_of_match? hc hcut' hlast hinto hline hfound⟩

/-! ## What the statement binds -/

theorem effects_statement (hc : p.statement? = some c) (found : Groups) :
    (Form.computation c).effects found = (do
      let b ← Condition.test p (found.text 1) (found.text 2)
      return [.bind (found.text 3) (.boolean b)]) := by
  cases p with
  | begins | ends | contains | holdsKey =>
    cases hc
    simp only [Form.effects, Computation.target, Computation.value, Computation.literalTest,
      Computation.containment, Computation.keyHeld, Condition.test, Groups.value, Groups.display,
      bind_assoc, pure_bind]
  | greater | less | atLeast | atMost | differs | same => cases hc

section Runs

variable {σ : Type} [Host σ]

/-- The statement tests the operands that it reads and binds the outcome. -/
theorem run_of_into {b d e w x left' right' a' g' k' h' : Text} (hc : p.statement? = some c)
    (hcut : Cut p left right s a g k h) (hleft : Clear p.reserved left)
    (hcut' : Cut p left' right' s a' g' k' h') (hlast : Last p left' right')
    (hinto : Into v t x w b d e) (hline : '\n' ∉ s ++ t) (m : Machine σ) :
    (Run.statement (s ++ t)).run.run m = (do
      let outcome ← Run.evaluate (Condition.test p left' right')
      Run.bindName v (.boolean outcome) : Run σ Unit).run.run m := by
  obtain ⟨hidle, found, hform, hl, hr, hv⟩ :=
    find?_of_into hc hcut hleft hcut' hlast hinto hline
  have htest := test_congr (verbs_of_statement? hc) hl hr
  have heffects : (Run.evaluate ((Form.computation c).effects found) : Run σ _).run.run m = _ :=
    Run.run_evaluate _ m
  have hbind := run_bind ((Condition.test p left' right').run m.scope)
    (fun outcome => ((pure [.bind v (.boolean outcome)] : Eval (List Effect))).run m.scope)
    m.resources
  rw [effects_statement hc, htest, hv, ReaderT.run_bind, hbind] at heffects
  rw [Run.run_statement hidle hform, effects_statement hc, htest, hv, heffects, run_bind,
    Run.run_evaluate]
  rcases ((Condition.test p left' right').run m.scope).run.run m.resources with ⟨fault | outcome, r⟩
  · rfl
  · show (Run.performAll [.bind v (.boolean outcome)]).run.run _ = _
    rw [Run.performAll_singleton]
    rfl

/-- A predicate written with two operands, in any letter case and with any blanks between its
symbols. -/
def Writes (p : Phrase) (left right s : Text) : Prop :=
  ∃ a g k h, Cut p left right s a g k h

/-- A line on which `into`, a name and an ending follow a text. -/
def Binds (s v line : Text) : Prop :=
  ∃ t a w b c e, line = s ++ t ∧ Into v t a w b c e

/-- The two forms of a predicate whose operands leave the scan where it was and have no reserved
word outside strings and brackets. The condition tests these operands. The statement tests the
operands that the line has if the right one begins behind the last word between the two, even where
that word is in a string. If the right operand does not have the word, the statement evaluates the
condition and binds the outcome. -/
theorem statement_of_predicate {p : Phrase} (hp : p.statement?.isSome = true)
    {left right s v line : Text} (hs : p.Writes left right s) (hleft : Clear p.reserved left)
    (hright : p.Admits right) (hline : Binds s v line) (hsingle : '\n' ∉ line) (m : Machine σ) :
    Eval.holds s = Condition.test p left right ∧
    (∀ left' right', p.Writes left' right' s → Last p left' right' →
      (Run.statement line).run.run m = (do
        let outcome ← Run.evaluate (Condition.test p left' right')
        Run.bindName v (.boolean outcome) : Run σ Unit).run.run m) ∧
    ((p.quotes = false → ∀ w ∈ words right, w.map foldCase ≠ "in".toList) →
      (Run.statement line).run.run m = (do
        let outcome ← Run.evaluate (Eval.holds s)
        Run.bindName v (.boolean outcome) : Run σ Unit).run.run m) := by
  obtain ⟨c, hc⟩ := Option.isSome_iff_exists.1 hp
  obtain ⟨a, g, k, h, hcut⟩ := hs
  obtain ⟨t, x, w, b, d, e, rfl, hinto⟩ := hline
  have hholds : Eval.holds s = Condition.test p left right :=
    holds_of_cut (verbs_of_statement? hc) hcut hleft hright
      fun hin => hsingle (List.mem_append_left t hin)
  refine ⟨hholds, ?_, ?_⟩
  · rintro left' right' ⟨a', g', k', h', hcut'⟩ hlast
    exact run_of_into hc hcut hleft hcut' hlast hinto hsingle m
  · intro hwords
    have hlast : Last p left right := by
      refine ⟨hleft.firm, ?_⟩
      rw [Admits] at hright
      split at hright
      · next hquotes =>
        rw [if_pos hquotes]
        exact hright.1
      · next hquotes =>
        rw [if_neg hquotes]
        refine ⟨hright.firm, fun w hw => ?_⟩
        have hlink : p.link.toList.map foldCase = "in".toList := by
          cases p <;> first | exact absurd rfl hquotes | rfl | cases hc
        rw [hlink]
        exact hwords (by simpa using hquotes) w hw
    rw [hholds]
    exact run_of_into hc hcut hleft hcut hlast hinto hsingle m

/-- `Contains "in" in ["in"]` as a condition and as a statement. -/
theorem statement_of_predicate_contains :
    Eval.holds "Contains \"in\" in [\"in\"]".toList =
        Condition.test .contains "\"in\"".toList "[\"in\"]".toList ∧
      ((Run.statement "Contains \"in\" in [\"in\"] into v ok".toList).run.run
        (Machine.fresh {} .standard default ({} : Transcript))).2.scope.globals.get? "v".toList =
          some (.boolean true) := by
  have hgap : " ".toList ≠ [] ∧ Blank " ".toList := by decide
  have hs : contains.Writes "\"in\"".toList "[\"in\"]".toList
      "Contains \"in\" in [\"in\"]".toList :=
    ⟨"Contains ".toList, " ".toList, "in".toList, " ".toList, by decide,
      ⟨"Contains".toList, " ".toList, [], by decide, by decide, hgap, rfl⟩, hgap, by decide, hgap⟩
  have hline : Binds "Contains \"in\" in [\"in\"]".toList "v".toList
      "Contains \"in\" in [\"in\"] into v ok".toList :=
    ⟨" into v ok".toList, " ".toList, "into".toList, " ".toList, " ".toList, "ok".toList, by decide,
      by decide, hgap, by decide, hgap, by decide, hgap.2, by decide⟩
  obtain ⟨hholds, -, hrun⟩ := statement_of_predicate (p := .contains) rfl hs (by decide) (by decide)
    hline (by decide) (Machine.fresh {} .standard default ({} : Transcript))
  refine ⟨hholds, ?_⟩
  rw [hrun fun _ => by decide]
  decide +kernel

end Runs

end Phrase

end Grimoire
