import Grimoire.Proofs.Phrases

/-!
# Comparisons in conditions

Six phrases stand between their operands. All of them have the word `is`, and all but one have more
words behind it. In a masked copy whose operands are free of the word there is one place where it
stands, so each phrase can only be read there. Of two phrases with more words neither continues the
other, and the bare `is` comes last, so the first phrase that takes the text is the one that was
written, with the operands that were written.
-/

namespace Grimoire

open Text

/-! ## Words in front -/

namespace Text

variable {a b s t : Text} {verbs : List String}

/-- Words with one blank behind each of them. -/
def spelled (verbs : List String) : Text :=
  verbs.flatMap fun verb => verb.toList ++ [' ']

theorem leads_spelled (verbs : List String) : Leads verbs (spelled verbs) := by
  induction verbs with
  | nil => rfl
  | cons verb verbs ih =>
    refine ⟨verb.toList, [' '], spelled verbs, ?_, rfl, ⟨by simp, by decide⟩, ih⟩
    simp [spelled]

/-- Words cannot be written shorter than with one blank behind each of them. -/
theorem Leads.length_le (h : Leads verbs a) : (spelled verbs).length ≤ a.length := by
  induction verbs generalizing a with
  | nil => exact Nat.zero_le _
  | cons verb verbs ih =>
    obtain ⟨w, g, b, rfl, hw, ⟨hne, -⟩, hb⟩ := h
    have hword : w.length = verb.toList.length := by
      rw [← List.length_map (f := foldCase), hw, List.length_map]
    have hgap := List.length_pos_iff.2 hne
    have hrest := ih hb
    have hspelled : (spelled (verb :: verbs)).length =
        verb.toList.length + 1 + (spelled verbs).length := by
      simp [spelled]
      omega
    rw [hspelled, List.length_append, List.length_append]
    omega

/-- The words in front of a text are the first of its words. -/
theorem Leads.prefix_words (hverbs : areLettered verbs = true) (h : Leads verbs a) (s : Text) :
    (verbs.map fun verb => verb.toList.map foldCase) <+: (words (a ++ s)).map (List.map foldCase) := by
  induction verbs generalizing a with
  | nil => exact List.nil_prefix
  | cons verb verbs ih =>
    obtain ⟨w, g, b, rfl, hw, ⟨hne, hg⟩, hb⟩ := h
    rw [areLettered, List.all_cons, Bool.and_eq_true] at hverbs
    have hword := (solid_of_lettered hverbs.1 hw).1.words_eq
    rw [List.append_assoc, List.append_assoc, words_append_gap hg hne, hword, List.map_cons,
      List.singleton_append, List.map_cons, hw]
    exact (List.prefix_cons_inj _).2 (ih hverbs.2 hb)

/-- Words with one blank behind each are taken up to the text behind them. -/
theorem leads_spelled_inj (hverbs : areLettered verbs = true) (hb : Leads verbs b)
    (hs : ∃ c ∈ s.head?, isBlank c = false) (h : spelled verbs ++ s = b ++ t) :
    b = spelled verbs ∧ t = s := by
  cases verbs with
  | nil =>
    obtain rfl : b = [] := hb
    exact ⟨rfl, h.symm⟩
  | cons verb verbs =>
    obtain ⟨z, -, hz, rfl⟩ := leads_append_inj hverbs (List.cons_ne_nil verb verbs)
      (leads_spelled (verb :: verbs)) hb hs h
    have hlength := hb.length_le
    rw [hz, List.length_append] at hlength
    obtain rfl : z = [] := List.length_eq_zero_iff.1 (by omega)
    exact ⟨by rw [hz, List.append_nil], rfl⟩

end Text

namespace Phrase

open Pattern

variable {p q : Phrase} {left right k s : Text}

/-! ## What is written -/

/-- What stands between the operands, if the phrase is a comparison. -/
def joint? : Phrase → Option Text
  | greater => some " is greater than ".toList
  | less => some " is less than ".toList
  | atLeast => some " is at least ".toList
  | atMost => some " is at most ".toList
  | differs => some " is not ".toList
  | same => some " is ".toList
  | begins | ends | contains | holdsKey => none

/-- The words behind `is`. -/
def behind : Phrase → List String
  | greater => ["greater", "than"]
  | less => ["less", "than"]
  | atLeast => ["at", "least"]
  | atMost => ["at", "most"]
  | differs => ["not"]
  | same | begins | ends | contains | holdsKey => []

/-- The operand of a comparison: outside strings and brackets it has neither the word `is` nor the
end of a line. -/
structure Comparand (s : Text) : Prop extends Clear ["is".toList] s where
  line : '\n' ∉ s.mask

/-- Whether a text goes on as if more words of a comparison were to come. -/
def Continues (s : Text) : Prop :=
  ∃ w ∈ (words s.mask).head?,
    w.map foldCase ∈ ["not".toList, "greater".toList, "less".toList, "at".toList]

instance (s : Text) : Decidable (Comparand s) :=
  decidable_of_iff (Clear ["is".toList] s ∧ '\n' ∉ s.mask)
    ⟨fun ⟨h₁, h₂⟩ => ⟨h₁, h₂⟩, fun h => ⟨h.toClear, h.line⟩⟩

instance (s : Text) : Decidable (Continues s) :=
  inferInstanceAs (Decidable (∃ w ∈ (words s.mask).head?, _))

theorem Comparand.ne_is (h : Comparand s) : ∀ w ∈ words s.mask, w.map foldCase ≠ "is".toList :=
  fun w hw his => h.unreserved w hw (List.mem_singleton.2 his)

theorem lettered_behind (p : Phrase) : areLettered p.behind = true := by
  cases p <;> decide

theorem joint_eq (hk : p.joint? = some k) :
    p.verbs = [] ∧ k = ' ' :: ("is".toList ++ ' ' :: spelled p.behind) := by
  cases p <;> first | exact ⟨rfl, (Option.some.inj hk).symm⟩ | cases hk

/-! ## The masked copy -/

theorem plain_joint (p : Phrase) :
    ∀ c ∈ ' ' :: ("is".toList ++ ' ' :: spelled p.behind), Nesting.delimits c = false := by
  cases p <;> decide

/-- A copy of a comparison is made of the copies of its operands. -/
theorem mask_of_joint (hleft : Nested left) (hk : p.joint? = some k) :
    mask (left ++ (k ++ right)) =
      left.mask ++ ([' '] ++ ("is".toList ++ ([' '] ++ (spelled p.behind ++ right.mask)))) := by
  obtain ⟨-, rfl⟩ := joint_eq hk
  rw [hleft.mask_append, (nested_of_plain p.plain_joint).mask_append, mask_of_plain p.plain_joint]
  simp

/-- What is behind `is` in the copy begins and ends with no blank. -/
theorem firm_behind (hright : Firm s) : Firm (spelled p.behind ++ s) := by
  cases hbehind : p.behind with
  | nil => exact hright
  | cons verb verbs =>
    have hlettered := p.lettered_behind
    rw [hbehind] at hlettered
    obtain ⟨c, hc, hlast⟩ := hright.last
    exact ⟨(leads_spelled (verb :: verbs)).head hlettered s, c,
      by simp [List.getLast?_append, Option.mem_def.1 hc], hlast⟩

/-- The word `is` is nowhere behind the one between the operands. -/
theorem unreserved_behind (hright : ∀ w ∈ words s, w.map foldCase ≠ "is".toList) :
    ∀ w ∈ words (spelled p.behind ++ s), w.map foldCase ≠ "is".toList := by
  intro w hw
  rcases mem_words_leads_append p.lettered_behind (leads_spelled p.behind) hw with hverb | hw
  · intro his
    have hall : ∀ p : Phrase,
        "is".toList ∉ p.behind.map fun verb => verb.toList.map foldCase := by
      intro p
      cases p <;> decide
    exact hall p (his ▸ hverb)
  · exact hright w hw

/-! ## Readings -/

/-- The step that takes the left operand. -/
def front : Phrase → Pattern
  | differs => .short 1
  | _ => .long 1

theorem steps_comparison (hq : q.verbs = []) : q.pattern.steps =
    q.front :: .gap :: .keyword "is" :: .gap :: (leadSteps q.behind ++ [.long 2]) := by
  cases q <;> first | rfl | exact absurd hq (by decide)

theorem noted_front (q : Phrase) (place : Nat) (taken : Text) :
    q.front.noted place taken = [(1, ⟨place, place + taken.length⟩)] := by
  cases q <;> rfl

/-- A comparison that takes a copy in which `is` stands once, with one blank on either side, is read
there: its left operand goes up to the word, and behind it are the other words of the comparison and
its right operand. -/
theorem exists_of_match? {l t : Text} (hq : q.verbs = []) (hl : Firm l)
    (hlw : ∀ w ∈ words l, w.map foldCase ≠ "is".toList) (ht : Firm t)
    (htw : ∀ w ∈ words t, w.map foldCase ≠ "is".toList) {found : Groups}
    (hfound : q.pattern.match? (l ++ ([' '] ++ ("is".toList ++ ([' '] ++ t)))) = some found) :
    ∃ b r, t = b ++ r ∧ Leads q.behind b ∧ found.span? 1 = some ⟨0, l.length⟩ ∧
      found.span? 2 = some ⟨l.length + 4 + b.length, l.length + 4 + b.length + r.length⟩ := by
  have hsimple : ∀ step ∈ q.pattern.steps, step.simple = true := by
    cases q <;> decide
  have hlaid := laid_of_match? hsimple hfound
  rw [steps_comparison hq] at hlaid
  obtain ⟨l', _, _, hsplit, hspans, -, g, _, _, rfl, rfl, ⟨_, ⟨hglen, hg⟩, -⟩, k', _, _, rfl, rfl,
    ⟨_, hk', -⟩, h, t', later, rfl, rfl, ⟨_, ⟨hhlen, hh⟩, -⟩, hlaid⟩ := hlaid
  have hgap : [' '] ≠ [] ∧ Blank [' '] := ⟨by simp, by decide⟩
  obtain ⟨y, w, -, -, rfl, hy, rfl, hw, rfl⟩ := middle_unique (p := same) blank_nil hl hlw ht htw
    hgap rfl hgap ⟨List.length_pos_iff.1 hglen, hg⟩ hk' ⟨List.length_pos_iff.1 hhlen, hh⟩ hsplit
  -- the blanks around `is` are single, so the gaps cannot leave any to the operands
  obtain ⟨rfl, rfl⟩ : y = [] ∧ g = [' '] := by
    rcases List.append_eq_singleton_iff.1 hy.symm with hy | ⟨-, rfl⟩
    · exact hy
    · exact absurd hglen (Nat.lt_irrefl 0)
  obtain ⟨rfl, rfl⟩ : h = [' '] ∧ w = [] := by
    rcases List.append_eq_singleton_iff.1 hw.symm with ⟨rfl, -⟩ | hw
    · exact absurd hhlen (Nat.lt_irrefl 0)
    · exact hw
  obtain ⟨b, _, rfl, hb, r, _, _, rfl, rfl, -, rfl, rfl⟩ := exists_of_laid_leads hlaid
  have hplaces : found.spans = [(2, ⟨l.length + 4 + b.length, l.length + 4 + b.length + r.length⟩),
      (1, ⟨0, l.length⟩)] := by
    rw [hspans, noted_front]
    simp [noted, long, gap, keyword, link]
  refine ⟨b, r, by simp, hb, ?_, ?_⟩
  · rw [Groups.span?, hplaces]
    rfl
  · rw [Groups.span?, hplaces]
    rfl

theorem takes_front {notes : Notes} : q.front.Takes s notes ↔ (long 1).Takes s notes := by
  cases q <;> rfl

/-- A comparison takes every copy in which it is written between two texts on one line. -/
theorem exists_match?_of_joint {l r : Text} (hk : p.joint? = some k) (hl : l ≠ [] ∧ '\n' ∉ l)
    (hr : r ≠ [] ∧ '\n' ∉ r) : ∃ found, p.pattern.match?
      (l ++ ([' '] ++ ("is".toList ++ ([' '] ++ (spelled p.behind ++ r))))) = some found := by
  have hverbs := (joint_eq hk).1
  have hsteady : p.pattern.steady = true := by cases p <;> rfl
  have hgap : [' '] ≠ [] ∧ Blank [' '] := ⟨by simp, by decide⟩
  have hback : TakesAll (leadSteps p.behind ++ [.long 2]) (spelled p.behind ++ r) [(2, r)] :=
    takesAll_append.2 ⟨spelled p.behind, r, [], [(2, r)], rfl, rfl,
      takesAll_leadSteps (leads_spelled p.behind), takesAll_singleton.2 (takes_long.2 ⟨hr, rfl⟩)⟩
  obtain ⟨notes, htakes⟩ : ∃ notes, TakesAll p.pattern.steps
      (l ++ ([' '] ++ ("is".toList ++ ([' '] ++ (spelled p.behind ++ r))))) notes := by
    rw [steps_comparison hverbs]
    exact ⟨_, l, _, [(1, l)], _, rfl, rfl, takes_front.2 (takes_long.2 ⟨hl, rfl⟩),
      takesAll_link (p := same) hgap rfl hgap hback⟩
  exact exists_match?_of_takes hsteady (takes_iff_steps.2 htakes)

/-! ## The order of phrases -/

/-- Of two comparisons with words behind `is` neither continues the other. -/
theorem eq_of_prefix_behind {ws : List Text} (hq : q.behind ≠ []) (hp : p.behind ≠ [])
    (hqs : (q.behind.map fun verb => verb.toList.map foldCase) <+: ws)
    (hps : (p.behind.map fun verb => verb.toList.map foldCase) <+: ws) : q = p := by
  have hall : ∀ p q : Phrase, q.behind ≠ [] → p.behind ≠ [] →
      (q.behind.map fun verb => verb.toList.map foldCase) <+:
        (p.behind.map fun verb => verb.toList.map foldCase) → q = p := by
    intro p q
    cases p <;> cases q <;> decide
  rcases List.prefix_or_prefix_of_prefix hqs hps with h | h
  · exact hall p q hq hp h
  · exact (hall q p hp hq h).symm

/-- A text that begins with the words behind `is` goes on as if they were to come. -/
theorem continues_of_words (hq : q.behind ≠ []) (h : (q.behind.map fun verb =>
    verb.toList.map foldCase) <+: (words s.mask).map (List.map foldCase)) : Continues s := by
  have hall : ∀ q : Phrase, ∀ verb ∈ q.behind.head?, verb.toList.map foldCase ∈
      ["not".toList, "greater".toList, "less".toList, "at".toList] := by
    intro q
    cases q <;> decide
  obtain ⟨verb, verbs, hverbs⟩ := List.exists_cons_of_ne_nil hq
  obtain ⟨rest, hrest⟩ := h
  rw [hverbs, List.map_cons, List.cons_append, eq_comm, List.map_eq_cons_iff] at hrest
  obtain ⟨w, ws, hwords, hw, -⟩ := hrest
  refine ⟨w, by rw [hwords]; rfl, ?_⟩
  rw [hw]
  exact hall q verb (by rw [hverbs]; rfl)

/-- Before a comparison only comparisons with words behind `is` are tried. -/
theorem exists_inOrder (hk : p.joint? = some k) : ∃ before after,
    inOrder = before ++ p :: after ∧ ∀ q ∈ before, q.verbs = [] ∧ q.behind ≠ [] ∧ q ≠ p := by
  cases p with
  | greater => exact ⟨[], _, rfl, by decide⟩
  | less => exact ⟨[greater], _, rfl, by decide⟩
  | atLeast => exact ⟨[greater, less], _, rfl, by decide⟩
  | atMost => exact ⟨[greater, less, atLeast], _, rfl, by decide⟩
  | differs => exact ⟨[greater, less, atLeast, atMost], _, rfl, by decide⟩
  | same => exact ⟨[greater, less, atLeast, atMost, differs], _, rfl, by decide⟩
  | begins | ends | contains | holdsKey => cases hk

/-! ## Operands -/

section Joint

variable (hleft : Comparand left) (hright : Comparand right)

include hleft hright

/-- A comparison finds the operands between which it is written. -/
theorem operands?_of_joint (hk : p.joint? = some k) :
    p.operands? (left ++ (k ++ right)) = some (left, right) := by
  have hfirm := hright.nested.firm_mask hright.firm
  have hfirm' := hleft.nested.firm_mask hleft.firm
  have hmask : mask (left ++ (k ++ right)) = _ := mask_of_joint hleft.nested hk
  obtain ⟨hverbs, hjoint⟩ := joint_eq hk
  obtain ⟨found, hfound⟩ := exists_match?_of_joint hk ⟨hfirm'.ne_nil, hleft.line⟩
    ⟨hfirm.ne_nil, hright.line⟩
  obtain ⟨b, r, hsplit, hb, hspan, hspan'⟩ := exists_of_match? hverbs hfirm' hleft.ne_is
    (firm_behind hfirm) (unreserved_behind hright.ne_is) hfound
  obtain ⟨rfl, rfl⟩ := leads_spelled_inj p.lettered_behind hb hfirm.first hsplit
  have hcopy : mask (left ++ (k ++ right)) = left.mask ++ (k ++ right.mask) := by
    rw [hmask, hjoint]
    simp
  have hlength : (left.mask ++ k).length = left.mask.length + 4 + (spelled p.behind).length := by
    rw [hjoint]
    simp
    omega
  have hone : operand (left ++ (k ++ right)) (mask (left ++ (k ++ right))) ⟨0, left.mask.length⟩ =
      left :=
    operand_eq (show _ = [] ++ (left ++ (k ++ right)) from rfl)
      (show _ = [] ++ (left.mask ++ (k ++ right.mask)) from hcopy) (by simp) rfl
      (byteLength_mask left)
  have htwo : operand (left ++ (k ++ right)) (mask (left ++ (k ++ right)))
      ⟨left.mask.length + 4 + (spelled p.behind).length,
        left.mask.length + 4 + (spelled p.behind).length + right.mask.length⟩ = right := by
    refine operand_eq (show _ = (left ++ k) ++ (right ++ []) by simp)
      (show _ = (left.mask ++ k) ++ (right.mask ++ []) by rw [hcopy]; simp) (by rw [hlength]) ?_
      (byteLength_mask right)
    rw [byteLength_append, byteLength_append, byteLength_mask]
  simp only [operands?, hmask, hfound, hspan, hspan', Option.bind_eq_bind, Option.bind_some]
  rw [← hmask, hone, htwo]
  rfl

/-! ## The first phrase -/

/-- No other comparison with words behind `is` takes the copy. -/
theorem match?_eq_none_of_joint (hstart : ¬ Continues right) (hk : p.joint? = some k)
    (hq : q.verbs = []) (hbehind : q.behind ≠ []) (hne : q ≠ p) :
    q.pattern.match? (mask (left ++ (k ++ right))) = none := by
  rw [Option.eq_none_iff_forall_ne_some]
  intro found hfound
  have hfirm := hright.nested.firm_mask hright.firm
  rw [mask_of_joint hleft.nested hk] at hfound
  obtain ⟨b, r, hsplit, hb, -⟩ := exists_of_match? hq (hleft.nested.firm_mask hleft.firm)
    hleft.ne_is (firm_behind hfirm) (unreserved_behind hright.ne_is) hfound
  have hqs := hb.prefix_words q.lettered_behind r
  rw [← hsplit] at hqs
  -- the other words are those behind `is`, or those with which the right operand begins
  by_cases hp : p.behind = []
  · rw [hp] at hqs
    exact hstart (continues_of_words hbehind hqs)
  · exact hne (eq_of_prefix_behind hbehind hp hqs
      ((leads_spelled p.behind).prefix_words p.lettered_behind right.mask))

/-- The first phrase that takes a comparison is the one that is written, with the operands that are
written. -/
theorem find?_of_joint (hstart : ¬ Continues right) (hk : p.joint? = some k) :
    find? (left ++ (k ++ right)) = some (p, left, right) := by
  obtain ⟨before, after, horder, hbefore⟩ := exists_inOrder hk
  rw [find?, horder, List.findSome?_append, List.findSome?_eq_none_iff.2, Option.none_or,
    List.findSome?_cons, operands?_of_joint hleft hright hk]
  · rfl
  · -- what is tried before has words behind `is`
    intro q hq
    obtain ⟨hverbs, hbehind, hne⟩ := hbefore q hq
    rw [operands?, match?_eq_none_of_joint hleft hright hstart hk hverbs hbehind hne]
    rfl

/-- What is tested where a comparison is written. -/
theorem holds_of_joint (hstart : ¬ Continues right) (hk : p.joint? = some k) :
    Eval.holds (left ++ (k ++ right)) = Condition.test p left right := by
  rw [Eval.holds, Condition.ofText, (hleft.firm.append k hright.firm).trim_self,
    find?_of_joint hleft hright hstart hk]
  rfl

/-- Whatever stands in the strings and brackets of two operands, a comparison written between them
is found with just these operands. So `is not` holds where `is` does not, and `is` tests whether the
two are shown alike. -/
theorem comparison_is_exact (hstart : ¬ Continues right) :
    (∀ p k, p.joint? = some k → find? (left ++ (k ++ right)) = some (p, left, right)) ∧
      (Eval.holds (left ++ (" is ".toList ++ right)) = do
        return (← Eval.display left) == (← Eval.display right)) ∧
      Eval.holds (left ++ (" is not ".toList ++ right)) = do
        return !(← Eval.holds (left ++ (" is ".toList ++ right))) := by
  have hsame : Eval.holds (left ++ (" is ".toList ++ right)) = Condition.test same left right :=
    holds_of_joint hleft hright hstart rfl
  have hdiffers : Eval.holds (left ++ (" is not ".toList ++ right)) =
      Condition.test differs left right := holds_of_joint hleft hright hstart rfl
  refine ⟨fun p k hk => find?_of_joint hleft hright hstart hk, hsame, ?_⟩
  rw [hdiffers, hsame]
  simp only [Condition.test, bind_assoc, pure_bind]
  rfl

end Joint

/-- Keywords in a string and in brackets, beside characters of several bytes. -/
theorem comparison_is_exact_quoted :
    Comparand "\"é is not ö\"".toList ∧ Comparand "[\"x is\", (3)]".toList ∧
      ¬ Continues "[\"x is\", (3)]".toList ∧
      find? ("\"é is not ö\"".toList ++ (" is not ".toList ++ "[\"x is\", (3)]".toList)) =
        some (.differs, "\"é is not ö\"".toList, "[\"x is\", (3)]".toList) := by
  have hleft : Comparand "\"é is not ö\"".toList := by decide +kernel
  have hright : Comparand "[\"x is\", (3)]".toList := by decide +kernel
  have hstart : ¬ Continues "[\"x is\", (3)]".toList := by decide +kernel
  exact ⟨hleft, hright, hstart, (comparison_is_exact hleft hright hstart).1 .differs _ rfl⟩

end Phrase

end Grimoire
