import Grimoire.Proofs.Pieces
import Mathlib.Data.List.TakeWhile

/-!
# Words

The words of a text are what stands between its blanks. A word begins behind a blank or at the start
of the text and ends before a blank or at the end; it does not go over a character that it does not
have. Where a text has only one word of some kind, it can be cut around a word of that kind in only
one way.
-/

namespace Grimoire

namespace Text

/-- The words of a text. -/
def words (s : Text) : List Text :=
  (s.splitOnP isBlank).filter fun w => !w.isEmpty

/-- A text that is a word. -/
structure Solid (w : Text) : Prop where
  ne_nil : w ≠ []
  unblank : ∀ c ∈ w, isBlank c = false

/-- All characters are blank. -/
def Blank (s : Text) : Prop :=
  ∀ c ∈ s, isBlank c = true

instance (s : Text) : Decidable (Blank s) :=
  inferInstanceAs (Decidable (∀ c ∈ s, isBlank c = true))

/-- A word may follow. -/
def EndsApart (s : Text) : Prop :=
  ∀ c ∈ s.getLast?, isBlank c = true

/-- A word may come before. -/
def StartsApart (s : Text) : Prop :=
  ∀ c ∈ s.head?, isBlank c = true

variable {a b k a' b' k' s w g : Text} {c : Char}

/-! ## Ends and blanks -/

theorem Solid.firm (h : Solid w) : Firm w :=
  firm_of_forall h.ne_nil h.unblank

theorem blank_nil : Blank [] := by
  simp [Blank]

theorem Blank.append (ha : Blank a) (hb : Blank b) : Blank (a ++ b) :=
  List.forall_mem_append.2 ⟨ha, hb⟩

theorem endsApart_nil : EndsApart [] := by
  simp [EndsApart]

theorem startsApart_nil : StartsApart [] := by
  simp [StartsApart]

theorem Blank.startsApart (h : Blank g) : StartsApart g :=
  fun c hc => h c (List.mem_of_mem_head? hc)

theorem Blank.endsApart (h : Blank g) : EndsApart g :=
  fun c hc => h c (List.mem_of_mem_getLast? hc)

theorem StartsApart.of_append (h : StartsApart (a ++ b)) : StartsApart a := by
  intro c hc
  exact h c (by rw [List.head?_append, Option.mem_def.1 hc]; rfl)

theorem EndsApart.of_append (h : EndsApart (a ++ b)) : EndsApart b := by
  intro c hc
  exact h c (by rw [List.getLast?_append, Option.mem_def.1 hc]; rfl)

theorem StartsApart.append (ha : StartsApart a) (hb : StartsApart b) : StartsApart (a ++ b) := by
  cases a with
  | nil => exact hb
  | cons d a => exact ha

theorem Blank.startsApart_append (hne : g ≠ []) (h : Blank g) (s : Text) :
    StartsApart (g ++ s) := by
  obtain ⟨d, g, rfl⟩ := List.exists_cons_of_ne_nil hne
  intro c hc
  obtain rfl : d = c := Option.some.inj hc
  exact h d List.mem_cons_self

theorem Blank.endsApart_append (hne : g ≠ []) (h : Blank g) (s : Text) : EndsApart (s ++ g) := by
  intro c hc
  rw [List.getLast?_append_of_ne_nil _ hne] at hc
  exact h c (List.mem_of_mem_getLast? hc)

theorem Solid.not_endsApart (h : Solid w) : ¬ EndsApart w := by
  intro hends
  have hblank := hends _ (List.getLast?_eq_some_getLast h.ne_nil)
  rw [h.unblank _ (List.getLast_mem h.ne_nil)] at hblank
  cases hblank

/-- Blanks before a text that begins with something else can be told from it. -/
theorem blank_append_inj (ha : Blank a) (hb : Blank b) (hs : ∃ c ∈ s.head?, isBlank c = false)
    (hw : ∃ c ∈ w.head?, isBlank c = false) (h : a ++ s = b ++ w) : a = b ∧ s = w := by
  have hsame : s = w := by
    rw [← dropWhile_isBlank_append ha hs, h, dropWhile_isBlank_append hb hw]
  subst hsame
  exact ⟨List.append_cancel_right h, rfl⟩

/-- Words at the start of a text can be told from what follows. -/
theorem solid_append_inj (hk : Solid k) (hk' : Solid k') (hb : StartsApart b)
    (hb' : StartsApart b') (h : k ++ b = k' ++ b') : k = k' ∧ b = b' := by
  have front : ∀ {k b : Text}, Solid k → StartsApart b →
      (k ++ b).takeWhile (fun c => !isBlank c) = k := by
    intro k b hk hb
    rw [List.takeWhile_append_of_pos fun c hc => by rw [hk.unblank c hc]; rfl]
    cases b with
    | nil => exact List.append_nil k
    | cons c b =>
      have hc := hb c rfl
      rw [List.takeWhile_cons_of_neg (by rw [hc]; simp), List.append_nil]
  have hsame : k = k' := by rw [← front hk hb, h, front hk' hb']
  subst hsame
  exact ⟨rfl, List.append_cancel_left h⟩

/-- A text that is trimmed and not empty. -/
theorem firm_of_trim (hne : s ≠ []) (h : s.trim = s) : Firm s := by
  have hstart : trimStart s = s := by
    have hlen := length_trimEnd_le (trimStart s)
    rw [show trimEnd (trimStart s) = s from h] at hlen
    exact (List.dropWhile_suffix isBlank).eq_of_length_le hlen
  have hend : trimEnd s = s := by
    have htrim : trimEnd (trimStart s) = s := h
    rwa [hstart] at htrim
  have first : ∀ {t : Text}, t ≠ [] → t.dropWhile isBlank = t →
      ∃ c ∈ t.head?, isBlank c = false := by
    intro t hne h
    obtain ⟨c, t, rfl⟩ := List.exists_cons_of_ne_nil hne
    exact ⟨c, rfl, eq_false_of_ne_true (List.dropWhile_eq_self_iff.1 h (Nat.succ_pos t.length))⟩
  refine ⟨first hne hstart, ?_⟩
  rw [← List.head?_reverse]
  refine first (by simpa using hne) ?_
  rw [← List.reverse_inj, List.reverse_reverse]
  exact hend

theorem trim_blank_append (hg : Blank g) (s : Text) : (g ++ s).trim = s.trim := by
  rw [trim, trimStart, List.dropWhile_append_of_pos hg]
  rfl

theorem trimEnd_append_blank (hg : Blank g) (s : Text) : trimEnd (s ++ g) = trimEnd s := by
  have hback : ∀ c ∈ g.reverse, isBlank c = true := fun c hc => hg c (List.mem_reverse.1 hc)
  rw [trimEnd, List.reverse_append, List.dropWhile_append_of_pos hback]
  rfl

theorem trim_append_blank (hg : Blank g) (s : Text) : (s ++ g).trim = s.trim := by
  by_cases hs : Blank s
  · have hboth : Blank (s ++ g) := hs.append hg
    have h := trim_blank_append hboth []
    rw [List.append_nil] at h
    have h' := trim_blank_append hs []
    rw [List.append_nil] at h'
    rw [h, h']
  · rw [trim, trimStart, List.dropWhile_append, if_neg, trimEnd_append_blank hg]
    · rfl
    · simpa [Blank, List.dropWhile_eq_nil_iff] using hs

/-- The blanks at the end of a text. -/
theorem exists_trimEnd (s : Text) : ∃ g, s = trimEnd s ++ g ∧ Blank g := by
  refine ⟨(s.reverse.takeWhile isBlank).reverse, ?_, fun c hc => ?_⟩
  · rw [trimEnd, ← List.reverse_append, List.takeWhile_append_dropWhile, List.reverse_reverse]
  · exact List.mem_takeWhile_imp (List.mem_reverse.1 hc)

/-- A text is the trimmed text with blanks around it. -/
theorem exists_trim (s : Text) : ∃ a b, s = a ++ (trim s ++ b) ∧ Blank a ∧ Blank b := by
  obtain ⟨b, hb, hblank⟩ := exists_trimEnd (trimStart s)
  refine ⟨s.takeWhile isBlank, b, ?_, fun c hc => List.mem_takeWhile_imp hc, hblank⟩
  rw [trim, ← hb, trimStart, List.takeWhile_append_dropWhile]

/-- Blanks before a text that begins with something else hold the blanks that begin another. -/
theorem blank_append_split {x h t : Text} (hh : Blank h) (hs : ∃ c ∈ s.head?, isBlank c = false)
    (heq : x ++ s = h ++ t) : ∃ z, x = h ++ z ∧ t = z ++ s := by
  rcases List.append_eq_append_iff.1 heq with ⟨z, rfl, hz⟩ | ⟨z, rfl, hz⟩
  · cases z with
    | nil => exact ⟨[], by simp, by simpa using hz.symm⟩
    | cons c z =>
      obtain ⟨d, hd, hblank⟩ := hs
      rw [hz] at hd
      obtain rfl : c = d := Option.some.inj hd
      rw [hh c (by simp)] at hblank
      cases hblank
  · exact ⟨z, rfl, hz⟩

/-- A text that begins otherwise does not begin with blanks. -/
theorem Firm.eq_nil_of_blank_append (hs : Firm s) (ha : Blank a) (h : s ++ k = a ++ k') :
    a = [] := by
  obtain ⟨z, hnil, -⟩ := blank_append_split (x := []) ha (hs.head_append k) h
  exact (List.append_eq_nil_iff.1 hnil.symm).1

/-- A text that ends otherwise does not end with blanks. -/
theorem Firm.eq_nil_of_append_blank (h : Firm (s ++ g)) (hg : Blank g) : g = [] := by
  by_contra hne
  obtain ⟨c, hc, hlast⟩ := h.last
  rw [hg.endsApart_append hne s c hc] at hlast
  cases hlast

/-- Two texts with a mark in them are equal in two parts, if the mark is not in the first. -/
theorem mark_append_inj (ha : c ∉ a) (hb : c ∉ b) (h : a ++ c :: k = b ++ c :: k') :
    a = b ∧ k = k' := by
  have front : ∀ {a k : Text}, c ∉ a → (a ++ c :: k).takeWhile (· != c) = a := by
    intro a k ha
    rw [List.takeWhile_append_of_pos fun d hd => bne_iff_ne.2 (ne_of_mem_of_not_mem hd ha),
      List.takeWhile_cons_of_neg (by simp), List.append_nil]
  obtain rfl : a = b := by rw [← front ha, h, front hb]
  exact ⟨rfl, (List.cons.inj (List.append_cancel_left h)).2⟩

/-! ## From the end -/

theorem EndsApart.reverse (h : EndsApart a) : StartsApart a.reverse := by
  intro c hc
  rw [List.head?_reverse] at hc
  exact h c hc

theorem Solid.reverse (h : Solid w) : Solid w.reverse :=
  ⟨by simpa using h.ne_nil, fun c hc => h.unblank c (List.mem_reverse.1 hc)⟩

theorem Blank.reverse (h : Blank g) : Blank g.reverse :=
  fun c hc => h c (List.mem_reverse.1 hc)

/-- Blanks at the end of two texts with something else before them. -/
theorem append_blank_inj (ha : Blank a) (hb : Blank b) (hs : ∃ c ∈ s.getLast?, isBlank c = false)
    (hw : ∃ c ∈ w.getLast?, isBlank c = false) (h : s ++ a = w ++ b) : s = w ∧ a = b := by
  have hback := congrArg List.reverse h
  rw [List.reverse_append, List.reverse_append] at hback
  obtain ⟨hsame, hrest⟩ := blank_append_inj ha.reverse hb.reverse (by rwa [List.head?_reverse])
    (by rwa [List.head?_reverse]) hback
  exact ⟨List.reverse_injective hrest, List.reverse_injective hsame⟩

/-- Blanks behind a text that ends with something else hold the blanks that end another. -/
theorem append_blank_split {x h t : Text} (hh : Blank h)
    (hs : ∃ c ∈ s.getLast?, isBlank c = false) (heq : s ++ x = t ++ h) :
    ∃ z, x = z ++ h ∧ t = s ++ z := by
  have hback := congrArg List.reverse heq
  rw [List.reverse_append, List.reverse_append] at hback
  obtain ⟨z, hx, ht⟩ := blank_append_split hh.reverse (by rwa [List.head?_reverse]) hback
  refine ⟨z.reverse, List.reverse_injective (by simpa using hx), List.reverse_injective ?_⟩
  simpa using ht

/-- Two texts with a mark in them are equal in two parts, if the mark is not in the last. -/
theorem append_mark_inj (ha : c ∉ k) (hb : c ∉ k') (h : a ++ c :: k = b ++ c :: k') :
    a = b ∧ k = k' := by
  have hback := congrArg List.reverse h
  simp only [List.reverse_append, List.reverse_cons, List.append_assoc,
    List.singleton_append] at hback
  obtain ⟨hsame, hrest⟩ := mark_append_inj (by simpa using ha) (by simpa using hb) hback
  exact ⟨List.reverse_injective hrest, List.reverse_injective hsame⟩

/-- Words at the end of two texts. -/
theorem append_solid_inj (hk : Solid k) (hk' : Solid k') (ha : EndsApart a) (hb : EndsApart b)
    (h : a ++ k = b ++ k') : a = b ∧ k = k' := by
  have hback := congrArg List.reverse h
  rw [List.reverse_append, List.reverse_append] at hback
  obtain ⟨hsame, hrest⟩ := solid_append_inj hk.reverse hk'.reverse ha.reverse hb.reverse hback
  exact ⟨List.reverse_injective hrest, List.reverse_injective hsame⟩

/-- The last words of two texts with blanks behind them. -/
theorem append_word_inj {h : Text} (hk : Solid k) (hk' : Solid k') (ha : EndsApart a)
    (hb : EndsApart b) (hg : Blank g) (hh : Blank h) (heq : a ++ (k ++ g) = b ++ (k' ++ h)) :
    a = b ∧ k = k' := by
  have hlast : ∀ {x w : Text}, Solid w → ∃ c ∈ (x ++ w).getLast?, isBlank c = false := by
    intro x w hw
    rw [List.getLast?_append_of_ne_nil _ hw.ne_nil]
    exact hw.firm.last
  obtain ⟨hsame, -⟩ := append_blank_inj hg hh (hlast hk) (hlast hk')
    (show (a ++ k) ++ g = (b ++ k') ++ h by simpa using heq)
  exact append_solid_inj hk hk' ha hb hsame

/-! ## Words of a text -/

theorem words_append_cons (a b : Text) (hc : isBlank c = true) :
    words (a ++ c :: b) = words a ++ words b := by
  rw [words, List.splitOnP_append_cons a b hc, List.filter_append]
  rfl

theorem words_nil : words [] = [] := by
  decide

theorem words_of_unblank (h : ∀ c ∈ s, isBlank c = false) :
    words s = if s = [] then [] else [s] := by
  rw [words, List.splitOnP_eq_singleton h]
  cases s <;> rfl

theorem Solid.words_eq (h : Solid w) : words w = [w] := by
  rw [words_of_unblank h.unblank, if_neg h.ne_nil]

theorem Blank.words_append (hg : Blank g) (s : Text) : words (g ++ s) = words s := by
  induction g with
  | nil => rfl
  | cons c g ih =>
    obtain ⟨hc, hg⟩ := List.forall_mem_cons.1 hg
    rw [List.cons_append]
    exact (words_append_cons [] (g ++ s) hc).trans (ih hg)

theorem Blank.words_eq (hg : Blank g) : words g = [] := by
  have h := hg.words_append []
  rwa [List.append_nil, words_nil] at h

/-- Blanks between two texts keep their words apart. -/
theorem words_append_gap (hg : Blank g) (hne : g ≠ []) (a b : Text) :
    words (a ++ (g ++ b)) = words a ++ words b := by
  obtain ⟨c, g, rfl⟩ := List.exists_cons_of_ne_nil hne
  obtain ⟨hc, hg⟩ := List.forall_mem_cons.1 hg
  rw [List.cons_append, words_append_cons a (g ++ b) hc, Blank.words_append hg]

theorem words_append_blank (hg : Blank g) (s : Text) : words (s ++ g) = words s := by
  by_cases hne : g = []
  · rw [hne, List.append_nil]
  · have h := words_append_gap hg hne s []
    rwa [List.append_nil, words_nil, List.append_nil] at h

theorem words_append (hb : StartsApart b) (a : Text) : words (a ++ b) = words a ++ words b := by
  cases b with
  | nil => rw [List.append_nil, words_nil, List.append_nil]
  | cons c b =>
    have hc := hb c rfl
    rw [words_append_cons a b hc, ← List.nil_append (c :: b), words_append_cons [] b hc, words_nil,
      List.nil_append]

theorem solid_of_mem_words (h : w ∈ words s) : Solid w := by
  induction hn : s.length using Nat.strongRecOn generalizing s with
  | _ n ih =>
    by_cases hblank : ∀ c ∈ s, isBlank c = false
    · rw [words_of_unblank hblank] at h
      split at h
      · cases h
      · next hne =>
        obtain rfl := List.mem_singleton.1 h
        exact ⟨hne, hblank⟩
    · push Not at hblank
      obtain ⟨c, hc, hblank⟩ := hblank
      obtain ⟨a, b, rfl⟩ := List.append_of_mem hc
      rw [words_append_cons a b (by simpa using hblank), List.mem_append] at h
      rw [List.length_append, List.length_cons] at hn
      exact h.elim (fun h => ih a.length (by omega) h rfl) fun h => ih b.length (by omega) h rfl

/-- A word stands between blanks or at an end. -/
theorem exists_of_mem_words (h : w ∈ words s) :
    ∃ a b, s = a ++ (w ++ b) ∧ EndsApart a ∧ StartsApart b := by
  induction hn : s.length using Nat.strongRecOn generalizing s with
  | _ n ih =>
    by_cases hblank : ∀ c ∈ s, isBlank c = false
    · rw [words_of_unblank hblank] at h
      split at h
      · cases h
      · obtain rfl := List.mem_singleton.1 h
        exact ⟨[], [], (List.append_nil w).symm, endsApart_nil, startsApart_nil⟩
    · push Not at hblank
      obtain ⟨c, hc, hblank⟩ := hblank
      have hblank : isBlank c = true := by simpa using hblank
      obtain ⟨a, b, rfl⟩ := List.append_of_mem hc
      rw [words_append_cons a b hblank, List.mem_append] at h
      rw [List.length_append, List.length_cons] at hn
      -- a word of one side keeps its place; only the blank between the sides is added
      rcases h with h | h
      · obtain ⟨x, y, rfl, hx, hy⟩ := ih a.length (by omega) h rfl
        refine ⟨x, y ++ c :: b, by simp, hx, ?_⟩
        cases y with
        | nil => exact fun d hd => Option.some.inj hd ▸ hblank
        | cons d y => exact hy
      · obtain ⟨x, y, rfl, hx, hy⟩ := ih b.length (by omega) h rfl
        refine ⟨a ++ c :: x, y, by simp, ?_, hy⟩
        cases x with
        | nil =>
          intro d hd
          rw [List.getLast?_append_of_ne_nil _ (List.cons_ne_nil c [])] at hd
          exact Option.some.inj hd ▸ hblank
        | cons d x =>
          intro e he
          rw [List.getLast?_append_of_ne_nil _ (List.cons_ne_nil c _),
            List.getLast?_cons_cons] at he
          exact hx e he

/-- What stands between blanks or at an end is a word. -/
theorem mem_words (hw : Solid w) (ha : EndsApart a) (hb : StartsApart b) :
    w ∈ words (a ++ (w ++ b)) := by
  have hback : words (w ++ b) = w :: words b := by
    rw [words_append hb, hw.words_eq]
    rfl
  have hfront : words (a ++ (w ++ b)) = words a ++ words (w ++ b) := by
    rcases List.eq_nil_or_concat a with rfl | ⟨a, c, rfl⟩
    · rw [words_nil]
      rfl
    · have hc : isBlank c = true := ha c (by simp)
      rw [List.concat_eq_append, List.append_assoc, List.singleton_append,
        words_append_cons a (w ++ b) hc, words_append_cons a [] hc, words_nil, List.append_nil]
  rw [hfront, hback]
  exact List.mem_append_right _ List.mem_cons_self

theorem words_ne_nil (h : ∃ c ∈ s.head?, isBlank c = false) : words s ≠ [] := by
  obtain ⟨c, hc, hblank⟩ := h
  obtain ⟨t, rfl⟩ := List.head?_eq_some_iff.1 hc
  have hapart : StartsApart (t.dropWhile fun d => !isBlank d) := by
    intro d hd
    have hnot := List.head?_dropWhile_not (fun d => !isBlank d) t
    rw [Option.mem_def.1 hd] at hnot
    simpa using hnot
  have hsolid : Solid (c :: t.takeWhile fun d => !isBlank d) := by
    refine ⟨List.cons_ne_nil _ _, List.forall_mem_cons.2 ⟨hblank, fun d hd => ?_⟩⟩
    simpa using List.mem_takeWhile_imp hd
  have hword := mem_words hsolid endsApart_nil hapart
  rw [List.nil_append, List.cons_append, List.takeWhile_append_dropWhile] at hword
  exact List.ne_nil_of_mem hword

/-- A word without a character stands on one side of it. -/
theorem mem_words_of_mark (hc : c ∉ w) (h : w ∈ words (a ++ c :: b)) :
    w ∈ words a ∨ w ∈ words b := by
  have hw := solid_of_mem_words h
  obtain ⟨x, y, hxy, hx, hy⟩ := exists_of_mem_words h
  rcases List.append_eq_append_iff.1 hxy with ⟨z, rfl, hz⟩ | ⟨z, rfl, hz⟩
  · right
    cases z with
    | nil =>
      -- the word would begin with the character
      obtain ⟨d, w, rfl⟩ := List.exists_cons_of_ne_nil hw.ne_nil
      obtain ⟨rfl, -⟩ := List.cons.inj hz
      exact absurd List.mem_cons_self hc
    | cons d z =>
      obtain ⟨rfl, rfl⟩ := List.cons.inj hz
      have hz : EndsApart z := EndsApart.of_append (a := a ++ [c]) (by simpa using hx)
      exact mem_words hw hz hy
  · left
    rcases List.append_eq_append_iff.1 hz with ⟨v, rfl, hv⟩ | ⟨v, rfl, hv⟩
    · subst hv
      exact mem_words hw hx hy.of_append
    · cases v with
      | nil =>
        rw [List.append_nil] at hw ⊢
        have hword := mem_words hw hx startsApart_nil
        rwa [List.append_nil] at hword
      | cons d v =>
        obtain ⟨rfl, -⟩ := List.cons.inj hv
        exact absurd (by simp) hc

/-! ## The place of a word -/

/-- A text is cut in only one way around a word of a kind, if one of the two ways leaves no other
word of the kind. -/
theorem cut_unique {P : Text → Prop} (hk : Solid k) (hk' : Solid k') (hP : P k')
    (ha : EndsApart a) (ha' : EndsApart a') (hb : StartsApart b) (hb' : StartsApart b')
    (hfront : ∀ w ∈ words a, ¬ P w) (hback : ∀ w ∈ words b, ¬ P w)
    (h : a ++ (k ++ b) = a' ++ (k' ++ b')) : a = a' ∧ k = k' ∧ b = b' := by
  rcases List.append_eq_append_iff.1 h with ⟨x, rfl, hx⟩ | ⟨x, rfl, hx⟩
  · by_cases hnil : x = []
    · subst hnil
      exact ⟨(List.append_nil a).symm, solid_append_inj hk hk' hb hb' hx⟩
    have hends : EndsApart x := ha'.of_append
    rcases List.append_eq_append_iff.1 hx with ⟨y, rfl, hy⟩ | ⟨y, rfl, -⟩
    · -- the other word stands behind the first
      subst hy
      exact absurd hP (hback k' (mem_words hk' hends.of_append hb'))
    · have hsolid : Solid x := ⟨hnil, fun d hd => hk.unblank d (List.mem_append_left y hd)⟩
      exact absurd hends hsolid.not_endsApart
  · by_cases hnil : x = []
    · subst hnil
      obtain ⟨rfl, rfl⟩ := solid_append_inj hk' hk hb' hb hx
      exact ⟨List.append_nil a', rfl, rfl⟩
    have hends : EndsApart x := ha.of_append
    rcases List.append_eq_append_iff.1 hx with ⟨y, rfl, hy⟩ | ⟨y, rfl, -⟩
    · -- the other word stands before the first
      subst hy
      exact absurd hP (hfront k' (mem_words hk' ha' hb'.of_append))
    · have hsolid : Solid x := ⟨hnil, fun d hd => hk'.unblank d (List.mem_append_left y hd)⟩
      exact absurd hends hsolid.not_endsApart

end Text

end Grimoire
