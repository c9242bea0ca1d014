import Grimoire.Condition
import Grimoire.Proofs.Brackets
import Grimoire.Proofs.Words

/-!
# Masked copies

A masked copy is made piece by piece, as long as every piece leaves the scan where it was. A piece
without quotes and brackets is its own copy, a piece in quotes is hidden but for the quotes, and
every piece begins and ends as its copy does. As a copy has as many bytes as its piece, a stretch of
the copy is cut out of the text at the same bytes.
-/

namespace Grimoire

namespace Text

open Nesting

variable {s t k b : Text}

/-! ## Bytes -/

theorem splitBytes?_append (s t : Text) : splitBytes? (byteLength s) (s ++ t) = some (s, t) := by
  induction s with
  | nil => rw [show byteLength [] = 0 from rfl, splitBytes?, List.nil_append]
  | cons c s ih =>
    have hpos := c.utf8Size_pos
    obtain ⟨n, hn⟩ := Nat.exists_eq_succ_of_ne_zero (n := c.utf8Size + byteLength s) (by omega)
    rw [byteLength_cons, hn, List.cons_append, splitBytes?, if_pos (by omega),
      show n + 1 - c.utf8Size = byteLength s by omega, ih]
    rfl

/-- What fills the bytes behind a text. -/
theorem sliceBytes?_append (s t u : Text) :
    sliceBytes? (byteLength s) (byteLength s + byteLength t) (s ++ (t ++ u)) = some t := by
  rw [sliceBytes?, splitBytes?_append, Nat.add_sub_cancel_left]
  show (splitBytes? (byteLength t) (t ++ u)).bind _ = _
  rw [splitBytes?_append]
  rfl

/-! ## Copies of pieces -/

/-- A text that leaves the scan where it was. -/
def Nested (s : Text) : Prop :=
  Nesting.feedAll {} s = {}

instance (s : Text) : Decidable (Nested s) :=
  inferInstanceAs (Decidable (Nesting.feedAll {} s = {}))

theorem maskFrom_append (n : Nesting) (s t : Text) :
    maskFrom n (s ++ t) = maskFrom n s ++ maskFrom (n.feedAll s) t := by
  induction s generalizing n with
  | nil => rfl
  | cons c s ih => rw [List.cons_append, maskFrom, ih, feedAll_cons, maskFrom, List.append_assoc]

theorem Nested.mask_append (hs : Nested s) (t : Text) : mask (s ++ t) = mask s ++ mask t := by
  rw [mask, maskFrom_append, show Nesting.feedAll {} s = {} from hs]
  rfl

theorem byteLength_mask (s : Text) : byteLength s.mask = byteLength s :=
  byteLength_maskFrom {} s

theorem nested_of_plain (h : ∀ c ∈ s, delimits c = false) : Nested s :=
  (balanced_of_plain h).feedAll

/-- A text without quotes and brackets is its own copy. -/
theorem mask_of_plain (h : ∀ c ∈ s, delimits c = false) : mask s = s := by
  induction s with
  | nil => rfl
  | cons c s ih =>
    obtain ⟨hc, hs⟩ := List.forall_mem_cons.1 h
    have hone : Nested [c] := nested_of_plain (by simpa using hc)
    rw [← List.singleton_append, hone.mask_append, ih hs]
    rfl

theorem Blank.plain (h : Blank s) : ∀ c ∈ s, delimits c = false :=
  fun c hc => delimits_of_isBlank (h c hc)

/-! ## Ends of copies -/

theorem mask_cons (c : Char) (s : Text) : ∃ t, mask (c :: s) = c :: t := by
  exact ⟨_, rfl⟩

theorem Nested.mask_concat {c : Char} (h : Nested (s ++ [c])) :
    ∃ t, mask (s ++ [c]) = t ++ [c] := by
  refine ⟨maskFrom {} s, ?_⟩
  have hafter : (Nesting.feedAll {} s).feed c = {} := by
    rw [Nested, feedAll_append] at h
    exact h
  rw [mask, maskFrom_append, maskFrom, hafter]
  simp [maskFrom, outside]

/-- A copy begins and ends as the text does. -/
theorem Nested.firm_mask (h : Nested s) (hs : Firm s) : Firm s.mask := by
  obtain ⟨⟨c, hc, hfirst⟩, d, hd, hlast⟩ := hs
  obtain ⟨t, rfl⟩ := List.head?_eq_some_iff.1 hc
  obtain ⟨u, hu⟩ := List.getLast?_eq_some_iff.1 hd
  refine ⟨⟨c, ?_, hfirst⟩, d, ?_, hlast⟩
  · obtain ⟨v, hv⟩ := mask_cons c t
    rw [hv]
    rfl
  · rw [hu] at h ⊢
    obtain ⟨v, hv⟩ := h.mask_concat
    rw [hv, List.getLast?_concat]
    rfl

/-- A copy has no character of its own but the underscore. -/
theorem mem_of_mem_maskFrom {n : Nesting} {c : Char} (h : c ∈ maskFrom n s) : c ∈ s ∨ c = '_' := by
  induction s generalizing n with
  | nil => cases h
  | cons d s ih =>
    rw [maskFrom, List.mem_append] at h
    rcases h with h | h
    · split at h
      · exact .inl (List.mem_cons.2 (.inl (List.mem_singleton.1 h)))
      · exact .inr (List.eq_of_mem_replicate h)
    · exact (ih h).imp_left (List.mem_cons_of_mem d)

/-- A word at the start of a text is at the start of its copy. -/
theorem mem_words_mask (hk : Solid k) (hplain : ∀ c ∈ k, delimits c = false) (hb : StartsApart b) :
    k ∈ words (mask (k ++ b)) := by
  rw [(nested_of_plain hplain).mask_append, mask_of_plain hplain]
  have hapart : StartsApart (mask b) := by
    cases b with
    | nil => exact startsApart_nil
    | cons c b =>
      obtain ⟨t, ht⟩ := mask_cons c b
      rw [ht]
      exact hb
  rw [words_append hapart, hk.words_eq]
  exact List.mem_append_left _ (List.mem_singleton_self k)

/-! ## Quotes -/

/-- A text between double quotes. -/
def quote (s : Text) : Text :=
  '"' :: (s ++ ['"'])

/-- In a string nothing is shown before the quote that ends it. -/
theorem maskFrom_in_string (escaped : Bool) (hs : '"' ∉ s) :
    maskFrom ⟨0, some '"', escaped⟩ s = List.replicate (byteLength s) '_' ∧
      ∃ escaped', Nesting.feedAll ⟨0, some '"', escaped⟩ s = ⟨0, some '"', escaped'⟩ := by
  induction s generalizing escaped with
  | nil => exact ⟨rfl, escaped, rfl⟩
  | cons c s ih =>
    rw [List.mem_cons, not_or] at hs
    obtain ⟨after, hafter⟩ : ∃ after, feed ⟨0, some '"', escaped⟩ c = ⟨0, some '"', after⟩ := by
      simp only [feed, if_neg (Ne.symm hs.1)]
      split
      · exact ⟨false, rfl⟩
      · split
        · exact ⟨true, rfl⟩
        · exact ⟨escaped, rfl⟩
    obtain ⟨hmask, hstate⟩ := ih after hs.2
    rw [maskFrom, hafter, hmask, feedAll_cons, hafter, byteLength_cons, List.replicate_add]
    exact ⟨rfl, hstate⟩

/-- What is in quotes is hidden. -/
theorem Nested.mask_quote (h : Nested (quote s)) (hs : '"' ∉ s) :
    mask (quote s) = quote (List.replicate (byteLength s) '_') := by
  obtain ⟨hmask, escaped, hstate⟩ := maskFrom_in_string false hs
  have hfeed : feed {} '"' = ⟨0, some '"', false⟩ := rfl
  have hafter : feed ⟨0, some '"', escaped⟩ '"' = {} := by
    rw [Nested, quote, feedAll_cons, feedAll_append, hfeed, hstate] at h
    exact h
  rw [mask, quote, maskFrom, hfeed, maskFrom_append, hmask, hstate, maskFrom, hafter]
  rfl

end Text

namespace Phrase

open Text

/-- A stretch of a copy is cut out of the text at the same bytes. -/
theorem operand_eq {text masked a s b a' s' b' : Text} {span : Span}
    (htext : text = a ++ (s ++ b)) (hmasked : masked = a' ++ (s' ++ b'))
    (hspan : span = ⟨a'.length, a'.length + s'.length⟩) (ha : byteLength a' = byteLength a)
    (hs : byteLength s' = byteLength s) : operand text masked span = s := by
  subst htext hmasked hspan
  have hstart : (a' ++ (s' ++ b')).take a'.length = a' := List.take_left
  have hstop : (a' ++ (s' ++ b')).take (a'.length + s'.length) = a' ++ s' := by
    rw [← List.length_append, ← List.append_assoc, List.take_left]
  simp only [operand, hstart, hstop, byteLength_append, ha, hs, sliceBytes?_append]
  rfl

end Phrase

end Grimoire
