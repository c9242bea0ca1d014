import Grimoire.Proofs.Masks
import Grimoire.Proofs.Strands

/-!
# Cutting a text at the seams of its copy

A hidden character is a run of underscores in the masked copy, so a cut of the copy that has an
underscore on both sides may go through a character of the text. Any other cut is a seam: it falls
between two characters. Every pattern of a condition puts a blank, a quote or an end of the text
around its operands, none of which is an underscore, so both operands begin and end at seams.
-/

namespace Grimoire

namespace Text

open Nesting

variable {n : Nesting} {s a b t : Text} {c : Char}

/-! ## Seams -/

/-- Not both sides of a cut are underscores. -/
def Seam (a b : Text) : Prop :=
  a.getLast? ≠ some '_' ∨ b.head? ≠ some '_'

theorem seam_of_cons {x : Text} (hne : a ≠ []) (h : Seam (x ++ a) b) : Seam a b := by
  rwa [Seam, List.getLast?_append_of_ne_nil _ hne] at h

theorem seam_nil (b : Text) : Seam [] b :=
  .inl nofun

/-- The copy of one character: it is shown, or hidden by underscores. -/
theorem shown_cases (n : Nesting) (c : Char) (s : Text) :
    ∃ shown, maskFrom n (c :: s) = shown ++ maskFrom (n.feed c) s ∧ maskFrom n [c] = shown ∧
      (shown = [c] ∨ shown = List.replicate c.utf8Size '_') := by
  refine ⟨if n.outside || (n.feed c).outside then [c] else List.replicate c.utf8Size '_', rfl,
    List.append_nil _, ?_⟩
  split
  · exact .inl rfl
  · exact .inr rfl

/-- The copy of one character is cut at its ends only, unless between two underscores. -/
theorem eq_nil_of_seam_shown (hshown : a ++ b = [c] ∨ a ++ b = List.replicate c.utf8Size '_')
    (ha : a ≠ []) (h : Seam a b) : b = [] := by
  rcases hshown with hshown | hshown
  · exact (List.append_eq_singleton_iff.1 hshown).elim (fun h => absurd h.1 ha) (·.2)
  · by_contra hb
    have hall : ∀ d ∈ a ++ b, d = '_' := fun d hd => List.eq_of_mem_replicate (hshown ▸ hd)
    have hlast : a.getLast? = some '_' := by
      rw [List.getLast?_eq_some_getLast ha, hall _ (List.mem_append_left b (List.getLast_mem ha))]
    have hfirst : b.head? = some '_' := by
      rw [List.head?_eq_some_head hb, hall _ (List.mem_append_right a (List.head_mem hb))]
    exact h.elim (absurd hlast) (absurd hfirst)

/-- A text is cut where its copy is cut at a seam. -/
theorem exists_cut_of_seam (hmask : maskFrom n s = a ++ b) (h : Seam a b) :
    ∃ a' b', s = a' ++ b' ∧ maskFrom n a' = a ∧ maskFrom (n.feedAll a') b' = b := by
  induction s generalizing n a with
  | nil =>
    obtain ⟨rfl, rfl⟩ := List.append_eq_nil_iff.1 hmask.symm
    exact ⟨[], [], rfl, rfl, rfl⟩
  | cons c s ih =>
    rcases eq_or_ne a [] with rfl | ha
    · exact ⟨[], c :: s, rfl, rfl, hmask⟩
    obtain ⟨shown, hcons, hone, hshown⟩ := shown_cases n c s
    -- the cut is behind the first character, for it is not inside its copy
    have hbehind : ∃ a₂, a = shown ++ a₂ ∧ maskFrom (n.feed c) s = a₂ ++ b := by
      rcases List.append_eq_append_iff.1 (hcons.symm.trans hmask) with
        ⟨a₂, rfl, hrest⟩ | ⟨b₂, rfl, rfl⟩
      · exact ⟨a₂, rfl, hrest⟩
      · have hinner : Seam a b₂ := by
          rcases h with h | h
          · exact .inl h
          · cases b₂ with
            | nil => exact .inr nofun
            | cons d b₂ => exact .inr h
        obtain rfl := eq_nil_of_seam_shown hshown ha hinner
        exact ⟨[], by simp, rfl⟩
    obtain ⟨a₂, rfl, hrest⟩ := hbehind
    have hseam : Seam a₂ b := by
      rcases eq_or_ne a₂ [] with rfl | hne
      · exact seam_nil b
      · exact seam_of_cons hne h
    obtain ⟨a', b', rfl, hfront, hback⟩ := ih hrest hseam
    refine ⟨c :: a', b', rfl, ?_, hback⟩
    obtain ⟨shown', hcons', hone', -⟩ := shown_cases n c a'
    rw [hcons', ← hone', hone, hfront]

/-- What is shown in a copy is in the text, at the same bytes. -/
theorem exists_of_mask (h : maskFrom n s = a ++ c :: b) (hc : c ≠ '_') :
    ∃ a' b', s = a' ++ c :: b' ∧ byteLength a' = byteLength a := by
  have hseam : Seam a (c :: b) := .inr fun hhead => hc (Option.some.inj hhead)
  obtain ⟨a', r, rfl, hfront, hback⟩ := exists_cut_of_seam h hseam
  refine ⟨a', r.tail, ?_, by rw [← hfront, byteLength_maskFrom]⟩
  cases r with
  | nil => cases hback
  | cons d r =>
    obtain ⟨shown, hcons, -, hshown⟩ := shown_cases (n.feedAll a') d r
    rw [hcons] at hback
    rcases hshown with rfl | rfl
    · rw [(List.cons.inj hback).1]
      rfl
    · obtain ⟨size, hsize⟩ := Nat.exists_eq_succ_of_ne_zero d.utf8Size_pos.ne'
      rw [hsize, List.replicate_succ] at hback
      exact absurd (List.cons.inj hback).1.symm hc

end Text

namespace Pattern

open Text

variable {p : Pattern} {ps : List Pattern} {s taken : Text} {notes : Notes}
  {spans : List (Nat × Span)} {place slot : Nat} {clear : Bool}

/-! ## Slots between seams -/

/-- Whether a pattern takes no underscore. -/
def avoids : Pattern → Bool
  | word letters => letters.all fun c => foldCase c != '_'
  | one set | run set _ _ => !set.holds '_'
  | nothing | andThen _ _ | orElse _ _ | many _ | capture _ _ => false

/-- Whether no underscore is at the start of what several patterns take. -/
def opensClear : List Pattern → Bool
  | [] => true
  | p :: ps => p.avoids && (p.occupies || opensClear ps)

/-- Whether no underscore is on the other side of the ends of what is noted, where `clear` tells it
of what stands before. -/
def anchored : Bool → List Pattern → Bool
  | _, [] => true
  | clear, p :: ps =>
    ((p.noted 0 []).isEmpty || clear && opensClear ps) &&
      anchored (p.avoids && (p.occupies || clear)) ps

theorem not_mem_of_avoids (hp : p.avoids = true) (h : p.Takes taken notes) : '_' ∉ taken := by
  match p, hp with
  | word letters, hp =>
    intro hin
    have hfold : foldCase '_' ∈ letters.map foldCase := h.1 ▸ List.mem_map_of_mem hin
    obtain ⟨c, hc, hsame⟩ := List.mem_map.1 hfold
    have hother := List.all_eq_true.1 hp c hc
    rw [hsame] at hother
    exact absurd hother (by decide)
  | one set, hp =>
    obtain ⟨⟨c, rfl, hc⟩, -⟩ := h
    rw [List.mem_singleton]
    rintro rfl
    rw [avoids, hc] at hp
    cases hp
  | run set least preference, hp =>
    intro hin
    rw [avoids, h.1.2 _ hin] at hp
    cases hp

theorem head?_of_opensClear (hps : opensClear ps = true) (h : Laid ps place s spans) :
    s.head? ≠ some '_' := by
  induction ps generalizing place s spans with
  | nil =>
    rw [h.1]
    nofun
  | cons p ps ih =>
    obtain ⟨s₁, s₂, later, rfl, -, ⟨notes, hp⟩, hrest⟩ := h
    rw [opensClear, Bool.and_eq_true, Bool.or_eq_true] at hps
    rcases eq_or_ne s₁ [] with rfl | hne
    · refine ih (hps.2.resolve_left fun hoccupies => ?_) hrest
      exact ne_nil_of_occupies hoccupies hp rfl
    · rw [List.head?_append_of_ne_nil _ hne]
      exact fun hhead => not_mem_of_avoids hps.1 hp (List.mem_of_mem_head? hhead)

/-- What is noted has no underscore before it and none behind it. -/
theorem exists_of_anchored (before : Text) (hps : anchored clear ps = true)
    (hbefore : clear = true → before.getLast? ≠ some '_') (h : Laid ps place s spans)
    {mark : Nat × Span} (hmark : mark ∈ spans) :
    ∃ a t b, s = a ++ (t ++ b) ∧ mark.2 = ⟨place + a.length, place + a.length + t.length⟩ ∧
      (before ++ a).getLast? ≠ some '_' ∧ b.head? ≠ some '_' := by
  induction ps generalizing clear before place s spans with
  | nil =>
    rw [h.2] at hmark
    cases hmark
  | cons p ps ih =>
    obtain ⟨s₁, s₂, later, rfl, rfl, ⟨notes, hp⟩, hrest⟩ := h
    rw [anchored, Bool.and_eq_true, Bool.or_eq_true] at hps
    rcases List.mem_append.1 hmark with hmark | hmark
    · have hbefore' : (p.avoids && (p.occupies || clear)) = true →
          (before ++ s₁).getLast? ≠ some '_' := by
        intro hclear
        rw [Bool.and_eq_true, Bool.or_eq_true] at hclear
        rcases eq_or_ne s₁ [] with rfl | hne
        · rw [List.append_nil]
          exact hbefore (hclear.2.resolve_left fun hocc => ne_nil_of_occupies hocc hp rfl)
        · rw [List.getLast?_append_of_ne_nil _ hne]
          exact fun hlast => not_mem_of_avoids hclear.1 hp (List.mem_of_mem_getLast? hlast)
      obtain ⟨a, t, b, rfl, hspan, hfront, hback⟩ := ih (before ++ s₁) hps.2 hbefore' hrest hmark
      refine ⟨s₁ ++ a, t, b, by simp, ?_, by rwa [← List.append_assoc], hback⟩
      rw [hspan, List.length_append, Nat.add_assoc, ← Nat.add_assoc place]
    · cases p with
      | capture slot body =>
        obtain ⟨hclear, hopens⟩ : clear = true ∧ opensClear ps = true := by
          simpa [noted] using hps.1
        obtain rfl := List.mem_singleton.1 hmark
        refine ⟨[], s₁, s₂, rfl, rfl, ?_, head?_of_opensClear hopens hrest⟩
        rw [List.append_nil]
        exact hbefore hclear
      | _ => cases hmark

/-- The slots that several patterns fill. -/
def slots (ps : List Pattern) : List Nat :=
  ps.flatMap fun p => (p.noted 0 []).map Prod.fst

theorem map_fst_of_laid (h : Laid ps place s spans) : spans.map Prod.fst = (slots ps).reverse := by
  induction ps generalizing place s spans with
  | nil => rw [h.2]; rfl
  | cons p ps ih =>
    obtain ⟨s₁, s₂, later, rfl, rfl, -, hrest⟩ := h
    have hfirst : (p.noted place s₁).map Prod.fst = ((p.noted 0 []).map Prod.fst).reverse := by
      cases p <;> rfl
    rw [List.map_append, ih hrest, hfirst, slots, slots, List.flatMap_cons, List.reverse_append]

/-- Every slot is filled. -/
theorem exists_mem_of_laid (h : Laid ps place s spans) (hslot : slot ∈ slots ps) :
    ∃ span, spans.lookup slot = some span ∧ (slot, span) ∈ spans := by
  rw [← List.mem_reverse, ← map_fst_of_laid h, List.mem_map] at hslot
  obtain ⟨mark, hmark, rfl⟩ := hslot
  cases hlook : spans.lookup mark.1 with
  | none =>
    have hother := List.lookup_eq_none_iff.1 hlook mark hmark
    rw [bne_self_eq_false] at hother
    cases hother
  | some span =>
    obtain ⟨front, back, rfl, -⟩ := List.lookup_eq_some_iff.1 hlook
    exact ⟨span, rfl, by simp⟩

end Pattern

namespace Phrase

open Text Pattern

variable {p : Phrase} {s part : Text} {g : Groups} {slot : Nat}

/-- A slot was filled with a stretch of the copy of a text that begins and ends at the same bytes as
a part of the text, and that part is cut out for it. -/
def CutsOut (s : Text) (g : Groups) (slot : Nat) (part : Text) : Prop :=
  ∃ span a b, g.span? slot = some span ∧ s = a ++ (part ++ b) ∧
    byteLength (s.mask.take span.start) = byteLength a ∧
    byteLength (s.mask.take span.stop) = byteLength (a ++ part) ∧
    sliceBytes? (byteLength (s.mask.take span.start)) (byteLength (s.mask.take span.stop)) s =
      some part

theorem CutsOut.operand (h : CutsOut s g slot part) :
    (g.span? slot).map (operand s s.mask) = some part := by
  obtain ⟨span, a, b, hspan, -, -, -, hslice⟩ := h
  rw [hspan, Option.map_some, Phrase.operand, hslice]
  rfl

/-- The patterns of conditions consist of simple steps. -/
theorem simple_steps (p : Phrase) : ∀ q ∈ p.pattern.steps, q.simple = true := by
  cases p <;> decide

/-- No pattern of a condition has an underscore next to an operand. -/
theorem anchored_steps (p : Phrase) : anchored true p.pattern.steps = true := by
  cases p <;> decide

theorem slots_steps (p : Phrase) : slots p.pattern.steps = [1, 2] := by
  cases p <;> rfl

theorem exists_cutsOut (h : p.pattern.match? s.mask = some g) (slot : Nat) (hslot : slot ∈ [1, 2]) :
    ∃ part, CutsOut s g slot part := by
  have hlaid : Laid p.pattern.steps 0 s.mask g.spans := laid_of_match? p.simple_steps h
  obtain ⟨span, hspan, hmark⟩ := exists_mem_of_laid hlaid (p.slots_steps ▸ hslot)
  obtain ⟨a, t, b, hmask, hplace, hfront, hback⟩ :=
    exists_of_anchored [] p.anchored_steps (fun _ => nofun) hlaid hmark
  -- both ends of the stretch are seams, and the text is cut at one after the other
  obtain ⟨a', r, hr, hmaska, hmaskr⟩ := exists_cut_of_seam hmask (.inl hfront)
  obtain ⟨t', b', rfl, hmaskt, -⟩ := exists_cut_of_seam hmaskr (.inr hback)
  have hplace : span = ⟨a.length, a.length + t.length⟩ := by simpa using hplace
  have hstart : byteLength (s.mask.take span.start) = byteLength a' := by
    rw [hplace, hmask, List.take_left, ← hmaska, byteLength_maskFrom]
  have hstop : byteLength (s.mask.take span.stop) = byteLength (a' ++ t') := by
    rw [hplace, hmask, ← List.length_append, ← List.append_assoc, List.take_left,
      byteLength_append, byteLength_append, ← hmaska, ← hmaskt, byteLength_maskFrom,
      byteLength_maskFrom]
  refine ⟨t', span, a', b', hspan, hr, hstart, hstop, ?_⟩
  rw [hstart, hstop, byteLength_append, hr, sliceBytes?_append]

theorem operands?_of_cutsOut {left right : Text} (h : p.pattern.match? s.mask = some g)
    (hleft : CutsOut s g 1 left) (hright : CutsOut s g 2 right) :
    p.operands? s = some (left, right) := by
  obtain ⟨l, hl, rfl⟩ := Option.map_eq_some_iff.1 hleft.operand
  obtain ⟨r, hr, rfl⟩ := Option.map_eq_some_iff.1 hright.operand
  simp [operands?, h, hl, hr]

/-- A masked copy has as many bytes as the text, and what it shows is in the text at the same
bytes. Whatever phrase takes the copy, its operands begin and end there at characters of the text,
so that they can be cut out of it, and those parts are the operands. -/
theorem operands_cut_out (s : Text) :
    byteLength s.mask = byteLength s ∧
    (∀ a c b, s.mask = a ++ c :: b → c ≠ '_' →
      ∃ a' b', s = a' ++ c :: b' ∧ byteLength a' = byteLength a) ∧
    ∀ (p : Phrase) (g : Groups), p.pattern.match? s.mask = some g →
      ∃ left right, p.operands? s = some (left, right) ∧ CutsOut s g 1 left ∧
        CutsOut s g 2 right := by
  refine ⟨byteLength_mask s, fun a c b hmask hc => exists_of_mask hmask hc, fun p g hg => ?_⟩
  obtain ⟨left, hleft⟩ := exists_cutsOut hg 1 (by decide)
  obtain ⟨right, hright⟩ := exists_cutsOut hg 2 (by decide)
  exact ⟨left, right, operands?_of_cutsOut hg hleft hright, hleft, hright⟩

/-- Characters of several bytes in a string and between brackets, one bracket too many closed. -/
theorem operands_cut_out_wide : ∃ g left right,
    (pattern .same).match? (mask "'é is é' is é[é])é".toList) = some g ∧
      operands? .same "'é is é' is é[é])é".toList = some (left, right) ∧
      CutsOut "'é is é' is é[é])é".toList g 1 left ∧
      CutsOut "'é is é' is é[é])é".toList g 2 right := by
  obtain ⟨g, hg⟩ : ∃ g, (pattern .same).match? (mask "'é is é' is é[é])é".toList) = some g :=
    ⟨_, rfl⟩
  obtain ⟨left, right, h⟩ := (operands_cut_out "'é is é' is é[é])é".toList).2.2 .same g hg
  exact ⟨g, left, right, hg, h⟩

end Phrase

end Grimoire
