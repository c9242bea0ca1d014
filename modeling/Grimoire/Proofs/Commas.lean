import Grimoire.Proofs.Lines
import Grimoire.Proofs.Masks

/-!
# Splitting at commas undoes joining

A text is cut at its commas at the top level. At such a comma the scan stands where it began, so
what is cut off is scanned alone as it was scanned in its place. Texts that leave the scan where it
was and have no comma of their own are found again when they are joined by commas, whatever blanks
are around them. Of any text, even one with quotes and brackets that do not match, the pieces joined
again are the text without the blanks around its commas and at its ends.
-/

namespace Grimoire

/-! ## Scans that began outside everything -/

namespace Nesting

variable {n : Nesting} {s : Text} {c : Char}

/-- What every scan keeps that began outside everything: quotes are open only for quotes, and there
is nothing to escape outside of them. -/
structure Regular (n : Nesting) : Prop where
  quote : ∀ q ∈ n.quote, delimits q = true
  escaped : n.quote = none → n.escaped = false

theorem regular_inside {q : Char} (hq : delimits q = true) (depth : Int) (escaped : Bool) :
    Regular ⟨depth, some q, escaped⟩ where
  quote p hp := by
    rw [← Option.some.inj hp]
    exact hq
  escaped hnone := absurd hnone (Option.some_ne_none q)

theorem regular_outside (depth : Int) : Regular ⟨depth, none, false⟩ where
  quote p hp := absurd hp (Option.not_mem_none p)
  escaped _ := rfl

theorem regular_start : Regular {} :=
  regular_outside 0

theorem Regular.feed (h : n.Regular) (c : Char) : (n.feed c).Regular := by
  obtain ⟨depth, quote, escaped⟩ := n
  cases quote with
  | some q =>
    have hq : delimits q = true := h.quote q rfl
    rw [Nesting.feed]
    dsimp only
    split
    · exact regular_inside hq depth false
    · next hescaped =>
      obtain rfl : escaped = false := eq_false_of_ne_true hescaped
      split
      · exact regular_inside hq depth true
      · split
        · exact regular_outside depth
        · exact h
  | none =>
    obtain rfl : escaped = false := h.escaped rfl
    rw [Nesting.feed]
    dsimp only
    split
    · next hc =>
      refine regular_inside ?_ depth false
      rcases hc with rfl | rfl <;> rfl
    · split
      · exact regular_outside (depth + 1)
      · split
        · exact regular_outside (depth - 1)
        · exact h

/-- Outside everything a scan stands where it began. -/
theorem Regular.eq_start (h : n.Regular) (houtside : n.outside = true) : n = {} := by
  obtain ⟨depth, quote, escaped⟩ := n
  rw [outside, Bool.and_eq_true, Option.isNone_iff_eq_none, beq_iff_eq] at houtside
  obtain ⟨rfl, rfl⟩ := houtside
  have hescaped : escaped = false := h.escaped rfl
  rw [hescaped]

theorem outside_of_atTop (h : n.atTop c = true) : n.outside = true :=
  (Bool.and_eq_true _ _ ▸ h).1

/-- Blanks lead neither out of quotes and brackets nor into them. -/
theorem Regular.outside_feed (h : n.Regular) (hc : isBlank c = true) :
    (n.feed c).outside = n.outside := by
  have hplain : delimits c = false := Text.delimits_of_isBlank hc
  obtain ⟨depth, quote, escaped⟩ := n
  cases quote with
  | some q =>
    have hq : c ≠ q := by
      rintro rfl
      rw [h.quote c rfl] at hplain
      cases hplain
    simp only [Nesting.feed, if_neg hq]
    split
    · rfl
    · split
      · rfl
      · rfl
  | none =>
    simp only [delimits, decide_eq_false_iff_not, List.mem_cons, List.not_mem_nil, or_false,
      not_or] at hplain
    simp [Nesting.feed, hplain]

theorem Regular.outside_feedAll (h : n.Regular) (hs : Text.Blank s) :
    (n.feedAll s).outside = n.outside := by
  induction s generalizing n with
  | nil => rfl
  | cons c s ih =>
    obtain ⟨hc, hs⟩ := List.forall_mem_cons.1 hs
    rw [feedAll_cons, ih (h.feed c) hs, h.outside_feed hc]

theorem Regular.feedAll (h : n.Regular) (s : Text) : (n.feedAll s).Regular := by
  induction s generalizing n with
  | nil => exact h
  | cons c s ih => exact ih (h.feed c)

end Nesting

namespace Text

open Nesting

variable {n : Nesting} {s t a b : Text} {c : Char} {pieces raws : List Text}

/-! ## Cuts -/

/-- A text without a comma at the top level is one piece, and any other is cut at the first. -/
theorem rawPieces_cases (hn : n.Regular) (s : Text) :
    (Misses (· == ',') n s ∧ rawPieces n s = [s]) ∨
      ∃ a b, s = a ++ ',' :: b ∧ Misses (· == ',') n a ∧ n.feedAll a = {} ∧
        rawPieces n s = a :: rawPieces {} b := by
  induction s generalizing n with
  | nil => exact .inl ⟨trivial, rfl⟩
  | cons c s ih =>
    rw [rawPieces]
    by_cases hcomma : (n.atTop c && c == ',') = true
    · right
      rw [Bool.and_eq_true, beq_iff_eq] at hcomma
      obtain ⟨htop, rfl⟩ := hcomma
      obtain rfl : n = {} := hn.eq_start (outside_of_atTop htop)
      exact ⟨[], s, rfl, trivial, rfl, rfl⟩
    · have hmiss : n.atTop c = true → (c == ',') = false := by
        intro htop
        simpa [htop] using hcomma
      simp only [if_neg hcomma]
      rcases ih (hn.feed c) with ⟨hs, hone⟩ | ⟨a, b, rfl, ha, hback, hmore⟩
      · rw [hone]
        exact .inl ⟨⟨hmiss, hs⟩, rfl⟩
      · rw [hmore]
        exact .inr ⟨c :: a, b, rfl, ⟨hmiss, ha⟩, hback, rfl⟩

theorem rawPieces_ne_nil (n : Nesting) (s : Text) : rawPieces n s ≠ [] := by
  cases s with
  | nil => exact List.cons_ne_nil _ _
  | cons c s =>
    rw [rawPieces]
    split
    · exact List.cons_ne_nil _ _
    · split <;> exact List.cons_ne_nil _ _

/-- No piece has a comma at the top level, and those with a comma behind them leave the scan where
it was. -/
theorem nested_of_mem_rawPieces (s : Text) :
    (∀ raw ∈ rawPieces {} s, Misses (· == ',') {} raw) ∧
      ∀ raw ∈ (rawPieces {} s).dropLast, Nested raw := by
  induction hlength : s.length using Nat.strong_induction_on generalizing s with
  | _ length ih =>
    rcases rawPieces_cases regular_start s with ⟨hs, hone⟩ | ⟨a, b, rfl, ha, hback, hmore⟩
    · rw [hone]
      exact ⟨by simpa using hs, by simp⟩
    · have hshort : b.length < length := by
        rw [← hlength, List.length_append, List.length_cons]
        omega
      obtain ⟨hmisses, hnested⟩ := ih b.length hshort b rfl
      rw [hmore, List.dropLast_cons_of_ne_nil (rawPieces_ne_nil {} b)]
      exact ⟨List.forall_mem_cons.2 ⟨ha, hmisses⟩, List.forall_mem_cons.2 ⟨hback, hnested⟩⟩

/-- Texts without commas at the top level are cut where they were joined, if those with a comma
behind them leave the scan where it was. -/
theorem rawPieces_join (hne : raws ≠ []) (hmisses : ∀ raw ∈ raws, Misses (· == ',') {} raw)
    (hnested : ∀ raw ∈ raws.dropLast, Nested raw) : rawPieces {} (join [','] raws) = raws := by
  induction raws with
  | nil => exact absurd rfl hne
  | cons raw more ih =>
    obtain ⟨hraw, hmisses⟩ := List.forall_mem_cons.1 hmisses
    cases more with
    | nil =>
      have hpieces := rawPieces_append (t := []) hraw rfl
      rw [List.append_nil] at hpieces
      rw [join, List.intercalate_singleton, hpieces]
    | cons next more =>
      rw [List.dropLast_cons_of_ne_nil (List.cons_ne_nil next more)] at hnested
      obtain ⟨hback, hnested⟩ := List.forall_mem_cons.1 hnested
      have hrest := ih (List.cons_ne_nil next more) hmisses hnested
      have hcut : rawPieces (Nesting.feedAll {} raw) (',' :: join [','] (next :: more)) =
          [] :: rawPieces {} (join [','] (next :: more)) := by
        rw [show Nesting.feedAll {} raw = {} from hback]
        rfl
      rw [hrest] at hcut
      have hpieces := rawPieces_append hraw hcut
      rw [List.append_nil] at hpieces
      rw [join, List.intercalate_cons_cons, List.append_assoc]
      exact hpieces

/-! ## Pieces with blanks around them -/

theorem Blank.misses_comma (hs : Blank s) : Misses (· == ',') n s := by
  refine misses_of_forall fun c hc => ?_
  rw [beq_eq_false_iff_ne]
  rintro rfl
  exact absurd (hs ',' hc) (by decide)

theorem Blank.nested (hs : Blank s) : Nested s :=
  nested_of_plain hs.plain

/-- Blanks around a text put no comma at the top level. -/
theorem misses_comma_trim : Misses (· == ',') {} s.trim ↔ Misses (· == ',') {} s := by
  obtain ⟨a, b, hs, ha, hb⟩ := exists_trim s
  conv_rhs => rw [hs, misses_append, misses_append, show Nesting.feedAll {} a = {} from ha.nested]
  exact ⟨fun h => ⟨ha.misses_comma, h, hb.misses_comma⟩, fun h => h.2.1⟩

/-- Blanks around a text make no difference to where it leaves the scan. -/
theorem nested_trim : Nested s.trim ↔ Nested s := by
  obtain ⟨a, b, hs, ha, hb⟩ := exists_trim s
  have hscan : Nesting.feedAll {} s = (Nesting.feedAll {} s.trim).feedAll b := by
    conv_lhs => rw [hs, feedAll_append, show Nesting.feedAll {} a = {} from ha.nested,
      feedAll_append]
  have hregular : (Nesting.feedAll {} s.trim).Regular := regular_start.feedAll s.trim
  rw [Nested, Nested, hscan]
  constructor
  · intro h
    rw [h]
    exact hb.nested
  · intro h
    refine hregular.eq_start ?_
    rw [← hregular.outside_feedAll hb, h]
    rfl

/-- Texts are found again when they are joined by commas with blanks around them, if those with a
comma behind them leave the scan where it was. -/
theorem topLevelPieces_join_of_trim (htrim : raws.map trim = pieces)
    (hmisses : ∀ p ∈ pieces, Misses (· == ',') {} p) (hnested : ∀ p ∈ pieces.dropLast, Nested p)
    (hlast : pieces.getLast? ≠ some []) : topLevelPieces (join [','] raws) = pieces := by
  subst htrim
  rcases eq_or_ne raws [] with rfl | hne
  · rfl
  have hraws : rawPieces {} (join [','] raws) = raws := by
    refine rawPieces_join hne (fun raw hraw => ?_) (fun raw hraw => ?_)
    · exact misses_comma_trim.1 (hmisses _ (List.mem_map_of_mem hraw))
    · rw [← List.map_dropLast] at hnested
      exact nested_trim.1 (hnested _ (List.mem_map_of_mem hraw))
  rw [topLevelPieces, hraws]
  exact if_neg hlast

/-! ## A text without the blanks around its commas -/

/-- The text behind a position without the blanks before its commas at the top level, those behind
them and those at its end. -/
def tidyFrom (n : Nesting) : Text → Text
  | [] => []
  | c :: rest =>
    let more := tidyFrom (n.feed c) rest
    if n.atTop c && c == ',' then ',' :: trimStart more
    else if isBlank c && (more.isEmpty || n.outside && more.head? == some ',') then more
    else c :: more

/-- The text without the blanks around its commas at the top level and at both ends. -/
def tidy (s : Text) : Text :=
  trimStart (tidyFrom {} s)

theorem trimEnd_cons (c : Char) (s : Text) :
    trimEnd (c :: s) = if isBlank c = true ∧ trimEnd s = [] then [] else c :: trimEnd s := by
  rw [trimEnd, List.reverse_cons, List.dropWhile_append]
  cases hs : (s.reverse.dropWhile isBlank) with
  | nil => cases hc : isBlank c <;> simp [trimEnd, hs, hc]
  | cons d t => simp [trimEnd, hs]

/-- The ends of a text may be trimmed in either order. -/
theorem trimStart_trimEnd_eq (s : Text) : trimStart (trimEnd s) = trim s := by
  induction s with
  | nil => rfl
  | cons c s ih =>
    rw [trimEnd_cons]
    by_cases hc : isBlank c = true
    · have hstart : ∀ t, trimStart (c :: t) = trimStart t := fun t =>
        List.dropWhile_cons_of_pos hc
      rw [trim, hstart, ← trim, ← ih]
      split
      · next h => rw [h.2]
      · exact hstart _
    · rw [if_neg fun h => hc h.1, trim, trimStart, trimStart, List.dropWhile_cons_of_neg hc,
        List.dropWhile_cons_of_neg hc, trimEnd_cons, if_neg fun h => hc h.1]

/-- A comma is at the end of the blanks before it. -/
theorem trimStart_append_comma (a b : Text) :
    trimStart (a ++ ',' :: b) = trimStart a ++ ',' :: b := by
  rw [trimStart, List.dropWhile_append]
  split
  · next h =>
    rw [List.dropWhile_cons_of_neg (by decide), trimStart, List.isEmpty_iff.1 h, List.nil_append]
  · rfl

theorem head?_trimEnd (h : trimEnd s ≠ []) : (trimEnd s).head? = s.head? := by
  obtain ⟨g, hg, -⟩ := exists_trimEnd s
  conv_rhs => rw [hg, List.head?_append_of_ne_nil _ h]

/-- Outside everything a blank is not before a comma, if there is none at the top level. -/
theorem head?_ne_comma (hn : n.Regular) (hc : isBlank c = true) (houtside : n.outside = true)
    (hs : Misses (· == ',') (n.feed c) s) : s.head? ≠ some ',' := by
  intro hhead
  obtain ⟨rest, rfl⟩ := List.head?_eq_some_iff.1 hhead
  have htop : (n.feed c).atTop ',' = true := by
    rw [atTop, hn.outside_feed hc, houtside]
    rfl
  exact absurd (hs.1 htop) (by decide)

/-- A blank goes only if a comma at the top level or nothing is next, what is not blank stays. -/
theorem drops_iff (hn : n.Regular) (hs : Misses (· == ',') (n.feed c) s) (more : Text) :
    (isBlank c && ((trimEnd s ++ more).isEmpty ||
      n.outside && (trimEnd s ++ more).head? == some ',')) = true ↔
      isBlank c = true ∧ trimEnd s = [] ∧ (more = [] ∨ n.outside = true ∧ more.head? = some ',') := by
  by_cases hempty : trimEnd s = []
  · simp [hempty]
  · simp only [List.head?_append_of_ne_nil _ hempty, head?_trimEnd hempty, hempty, Bool.and_eq_true,
      Bool.or_eq_true, List.isEmpty_iff, List.append_eq_nil_iff, false_and, false_or, and_false,
      beq_iff_eq, iff_false]
    exact fun ⟨hc, houtside, hhead⟩ => head?_ne_comma hn hc houtside hs hhead

/-- In a text without a comma at the top level only the blanks at the end go. -/
theorem tidyFrom_of_misses (hn : n.Regular) (hs : Misses (· == ',') n s) :
    tidyFrom n s = trimEnd s := by
  induction s generalizing n with
  | nil => rfl
  | cons c s ih =>
    obtain ⟨hmiss, hs⟩ := hs
    have hcomma : ¬ (n.atTop c && c == ',') = true := by
      rw [Bool.not_eq_true, Bool.and_eq_false_imp]
      exact hmiss
    have hdrops := drops_iff hn hs []
    simp only [List.append_nil, true_or, and_true] at hdrops
    rw [tidyFrom, ih (hn.feed c) hs, trimEnd_cons]
    rw [if_neg hcomma]
    by_cases hblank : isBlank c = true ∧ trimEnd s = []
    · rw [if_pos (hdrops.2 hblank), if_pos hblank, hblank.2]
    · rw [if_neg (mt hdrops.1 hblank), if_neg hblank]

/-- The blanks around the first comma at the top level go. -/
theorem tidyFrom_append_comma (hn : n.Regular) (ha : Misses (· == ',') n a)
    (hback : n.feedAll a = {}) :
    tidyFrom n (a ++ ',' :: b) = trimEnd a ++ ',' :: trimStart (tidyFrom {} b) := by
  induction a generalizing n with
  | nil =>
    obtain rfl : n = {} := hback
    rfl
  | cons c a ih =>
    obtain ⟨hmiss, ha⟩ := ha
    have hcomma : ¬ (n.atTop c && c == ',') = true := by
      rw [Bool.not_eq_true, Bool.and_eq_false_imp]
      exact hmiss
    have hdrops := drops_iff hn ha (',' :: trimStart (tidyFrom {} b))
    simp only [reduceCtorEq, List.head?_cons, and_true, false_or] at hdrops
    rw [List.cons_append, tidyFrom, ih (hn.feed c) ha hback, trimEnd_cons]
    rw [if_neg hcomma]
    by_cases hblank : isBlank c = true ∧ trimEnd a = []
    · -- the text before the comma is blank, so the scan was outside all along
      have houtside : n.outside = true := by
        obtain ⟨g, hg, hgblank⟩ := exists_trimEnd a
        rw [hblank.2, List.nil_append] at hg
        have hall : Blank (c :: a) := List.forall_mem_cons.2 ⟨hblank.1, hg ▸ hgblank⟩
        rw [← hn.outside_feedAll hall, hback]
        rfl
      rw [if_pos (hdrops.2 ⟨hblank.1, hblank.2, houtside⟩), if_pos hblank, hblank.2]
    · rw [if_neg fun h => hblank ((hdrops.1 h).imp_right And.left), if_neg hblank, List.cons_append]

/-- The pieces joined again. -/
theorem tidy_eq_join (s : Text) : tidy s = join [','] ((rawPieces {} s).map trim) := by
  induction hlength : s.length using Nat.strong_induction_on generalizing s with
  | _ length ih =>
    rcases rawPieces_cases regular_start s with ⟨hs, hone⟩ | ⟨a, b, rfl, ha, hback, hmore⟩
    · rw [hone, tidy, tidyFrom_of_misses regular_start hs, trimStart_trimEnd_eq]
      exact List.intercalate_singleton.symm
    · have hshort : b.length < length := by
        rw [← hlength, List.length_append, List.length_cons]
        omega
      obtain ⟨next, more, hnext⟩ := List.exists_cons_of_ne_nil (rawPieces_ne_nil {} b)
      have hrest : trimStart (tidyFrom {} b) = _ := ih b.length hshort b rfl
      rw [tidy, tidyFrom_append_comma regular_start ha hback, trimStart_append_comma,
        trimStart_trimEnd_eq, hrest, hmore, hnext]
      simp [join, List.intercalate_cons_cons]

/-- The pieces of a text are all between its commas, or all but a blank last one. -/
theorem topLevelPieces_cases (s : Text) :
    (rawPieces {} s).map trim = topLevelPieces s ∨
      (rawPieces {} s).map trim = topLevelPieces s ++ [[]] := by
  rw [topLevelPieces]
  split
  · next h => exact .inr (List.dropLast_append_getLast? [] h).symm
  · exact .inl rfl

theorem join_concat_nil (p : Text) (pieces : List Text) :
    join [','] (p :: pieces ++ [[]]) = join [','] (p :: pieces) ++ [','] := by
  induction pieces generalizing p with
  | nil => simp [join]
  | cons q pieces ih =>
    have hrest := ih q
    simp only [join, List.cons_append, List.intercalate_cons_cons] at hrest ⊢
    rw [hrest]
    simp only [List.append_assoc]

/-- The last piece is dropped if it is blank, but only that one: there may be one before it. -/
theorem tidy_eq_pieces (s : Text) : tidy s = join [','] (topLevelPieces s) ∨
    topLevelPieces s ≠ [] ∧ tidy s = join [','] (topLevelPieces s) ++ [','] := by
  rw [tidy_eq_join]
  rcases topLevelPieces_cases s with hall | hall
  · exact .inl (congrArg _ hall)
  · rw [hall]
    cases hpieces : topLevelPieces s with
    | nil => exact .inl List.intercalate_singleton
    | cons p pieces =>
      exact .inr ⟨List.cons_ne_nil p pieces, join_concat_nil p pieces⟩

theorem exists_of_mem_topLevelPieces {p : Text} (hp : p ∈ topLevelPieces s) :
    ∃ raw ∈ rawPieces {} s, raw.trim = p := by
  rw [← List.mem_map]
  rcases topLevelPieces_cases s with hall | hall
  · rwa [hall]
  · rw [hall]
    exact List.mem_append_left _ hp

/-- Splitting a text at its commas undoes joining, and joining undoes splitting. Trimmed texts that
leave the scan where it was and have no comma of their own at the top level, the last of them not
empty, are the pieces of what they make joined by commas, with any blanks around them. The pieces of
any text are trimmed and have no comma at the top level, and joined by commas they are the text
without the blanks around its commas and at its ends; only a blank last piece is missing, together
with its comma. -/
theorem topLevelPieces_inverts_join :
    (∀ pieces raws : List Text, (∀ p ∈ pieces, p.trim = p ∧ Nested p ∧ Misses (· == ',') {} p) →
      pieces.getLast? ≠ some [] → raws.map trim = pieces →
        topLevelPieces (join [','] raws) = pieces) ∧
    ∀ s : Text, (∀ p ∈ topLevelPieces s, p.trim = p ∧ Misses (· == ',') {} p) ∧
      (tidy s = join [','] (topLevelPieces s) ∨
        topLevelPieces s ≠ [] ∧ tidy s = join [','] (topLevelPieces s) ++ [',']) := by
  refine ⟨fun pieces raws hpieces hlast htrim => ?_, fun s => ⟨fun p hp => ?_, tidy_eq_pieces s⟩⟩
  · exact topLevelPieces_join_of_trim htrim (fun p hp => (hpieces p hp).2.2)
      (fun p hp => (hpieces p (List.dropLast_subset pieces hp)).2.1) hlast
  · obtain ⟨raw, hraw, rfl⟩ := exists_of_mem_topLevelPieces hp
    exact ⟨trim_trim raw, misses_comma_trim.2 ((nested_of_mem_rawPieces s).1 raw hraw)⟩

/-- Three pieces, the one in the middle empty, with blanks around them. -/
theorem topLevelPieces_inverts_join_blank :
    topLevelPieces "[1, 2] ,\t, \"a,\\\"b\"\n".toList =
      ["[1, 2]".toList, [], "\"a,\\\"b\"".toList] :=
  topLevelPieces_inverts_join.1 _ ["[1, 2] ".toList, "\t".toList, " \"a,\\\"b\"\n".toList]
    (by decide) (by decide) (by decide)

end Text

end Grimoire
