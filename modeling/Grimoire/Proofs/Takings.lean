import Grimoire.Proofs.Recognizers

/-!
# What patterns take

Which texts a pattern takes, and what it notes of them under its slots, is said here by recursion on
the pattern, without positions and without an order of preference. The ways of a pattern lead
through just these texts. So a match notes what the pattern notes in one of its readings of the
text, and a text that has a reading has a match.
-/

namespace Grimoire

/-- The slots that are filled with their texts, the latest first. -/
abbrev Notes := List (Nat × Text)

/-- Texts of one kind one after the other, with what is noted of them. -/
inductive Repeated (R : Text → Notes → Prop) : Text → Notes → Prop where
  | none : Repeated R [] []
  | more {s t : Text} {notes later : Notes} (first : R s notes) (rest : Repeated R t later) :
    Repeated R (s ++ t) (later ++ notes)

namespace Pattern

/-- A reading of a text by a pattern: the pattern takes the text and notes parts of it. -/
def Takes : Pattern → Text → Notes → Prop
  | nothing, s, notes => s = [] ∧ notes = []
  | word letters, s, notes => s.map foldCase = letters.map foldCase ∧ notes = []
  | one set, s, notes => (∃ c, s = [c] ∧ set.holds c = true) ∧ notes = []
  | run set least _, s, notes =>
    (least ≤ s.length ∧ ∀ c ∈ s, set.holds c = true) ∧ notes = []
  | andThen first second, s, notes =>
    ∃ s₁ s₂ n₁ n₂, s = s₁ ++ s₂ ∧ notes = n₂ ++ n₁ ∧ first.Takes s₁ n₁ ∧ second.Takes s₂ n₂
  | orElse first second, s, notes => first.Takes s notes ∨ second.Takes s notes
  | many body, s, notes => Repeated body.Takes s notes
  | capture slot body, s, notes => ∃ inner, body.Takes s inner ∧ notes = (slot, s) :: inner

/-- Whether a pattern takes at least one character. -/
def occupies : Pattern → Bool
  | nothing | many _ => false
  | word letters => !letters.isEmpty
  | one _ => true
  | run _ least _ => 0 < least
  | andThen first second => first.occupies || second.occupies
  | orElse first second => first.occupies && second.occupies
  | capture _ body => body.occupies

/-- Whether a pattern repeats only what takes at least one character, so that a text bounds the
number of repetitions. -/
def steady : Pattern → Bool
  | nothing | word _ | one _ | run _ _ _ => true
  | andThen first second | orElse first second => first.steady && second.steady
  | many body => body.occupies && body.steady
  | capture _ body => body.steady

theorem ne_nil_of_occupies {p : Pattern} {s : Text} {notes : Notes} (hp : p.occupies = true)
    (h : p.Takes s notes) : s ≠ [] := by
  induction p generalizing s notes with
  | nothing | many => cases hp
  | word letters =>
    rintro rfl
    have hnil : letters = [] := List.map_eq_nil_iff.1 h.1.symm
    rw [hnil] at hp
    cases hp
  | one set =>
    obtain ⟨⟨c, rfl, -⟩, -⟩ := h
    exact List.cons_ne_nil c []
  | run set least preference =>
    rintro rfl
    have hleast : 0 < least := of_decide_eq_true hp
    exact absurd h.1.1 (Nat.not_le.2 hleast)
  | andThen first second ihf ihs =>
    obtain ⟨s₁, s₂, n₁, n₂, rfl, -, hf, hs⟩ := h
    rw [occupies, Bool.or_eq_true] at hp
    rcases hp with hp | hp
    · exact List.append_ne_nil_of_left_ne_nil (ihf hp hf) s₂
    · exact List.append_ne_nil_of_right_ne_nil s₁ (ihs hp hs)
  | orElse first second ihf ihs =>
    rw [occupies, Bool.and_eq_true] at hp
    exact h.elim (ihf hp.1) (ihs hp.2)
  | capture slot body ih =>
    obtain ⟨inner, h, -⟩ := h
    exact ih hp h

end Pattern

/-! ## Ways and readings -/

namespace Scan

/-- What was noted, as parts of the text that was scanned. -/
def notes (source : Text) (s : Scan) : Notes :=
  s.spans.map fun mark => (mark.1, (source.drop mark.2.start).take (mark.2.stop - mark.2.start))

/-- The text left is what stands behind the position reached. -/
def Within (source : Text) (s : Scan) : Prop :=
  source.drop s.place = s.rest

/-- From one scan to another a text is taken and parts of it are noted. -/
structure Took (source : Text) (s t : Scan) (taken : Text) (noted : Notes) : Prop where
  rest : s.rest = taken ++ t.rest
  place : t.place = s.place + taken.length
  notes : t.notes source = noted ++ s.notes source

variable {source taken taken' : Text} {noted noted' : Notes} {s t u : Scan}

theorem Within.took (hs : s.Within source) (h : Took source s t taken noted) : t.Within source := by
  have hrest : source.drop s.place = taken ++ t.rest := hs.trans h.rest
  rw [Within, h.place, ← List.drop_drop, hrest, List.drop_left]

theorem Took.refl (s : Scan) : Took source s s [] [] :=
  ⟨rfl, rfl, rfl⟩

theorem Took.trans (h : Took source s t taken noted) (h' : Took source t u taken' noted') :
    Took source s u (taken ++ taken') (noted' ++ noted) where
  rest := by rw [h.rest, h'.rest, List.append_assoc]
  place := by rw [h'.place, h.place, List.length_append, Nat.add_assoc]
  notes := by rw [h'.notes, h.notes, List.append_assoc]

theorem took_of_taken {place : Nat} {left : Text} {spans : List (Nat × Span)} :
    Took source ⟨place, taken ++ left, spans⟩ ⟨place + taken.length, left, spans⟩ taken [] :=
  ⟨rfl, rfl, rfl⟩

/-- What stands between two scans of a text is noted under a slot. -/
theorem Took.capture (hs : s.Within source) (h : Took source s t taken noted) (slot : Nat) :
    Took source s { t with spans := (slot, ⟨s.place, t.place⟩) :: t.spans } taken
      ((slot, taken) :: noted) where
  rest := h.rest
  place := h.place
  notes := by
    have hrest : source.drop s.place = taken ++ t.rest := hs.trans h.rest
    have htaken : (source.drop s.place).take (t.place - s.place) = taken := by
      rw [h.place, Nat.add_sub_cancel_left, hrest, List.take_left]
    show (slot, (source.drop s.place).take (t.place - s.place)) :: t.notes source = _
    rw [htaken, h.notes]
    rfl

/-! ### Runs -/

section Runs

variable {set : Charset} {spans : List (Nat × Span)}

/-- The ways along a text, counted by the characters that they take. -/
theorem getElem?_alongFrom {rest : Text} {place i : Nat} :
    (alongFrom set spans place rest)[i]? = some t ↔
      ∃ taken left, rest = taken ++ left ∧ taken.length = i ∧
        (∀ c ∈ taken, set.holds c = true) ∧ t = ⟨place + i, left, spans⟩ := by
  induction rest generalizing place i with
  | nil =>
    rw [alongFrom]
    constructor
    · intro h
      cases i with
      | zero => exact ⟨[], [], rfl, rfl, by simp, (Option.some.inj h).symm⟩
      | succ i => cases h
    · rintro ⟨taken, left, hrest, rfl, -, rfl⟩
      obtain ⟨rfl, rfl⟩ := List.append_eq_nil_iff.1 hrest.symm
      rfl
  | cons c rest ih =>
    rw [alongFrom]
    cases i with
    | zero =>
      constructor
      · intro h
        exact ⟨[], c :: rest, rfl, rfl, by simp, (Option.some.inj h).symm⟩
      · rintro ⟨taken, left, hrest, hlen, -, rfl⟩
        obtain rfl := List.length_eq_zero_iff.1 hlen
        rw [hrest]
        rfl
    | succ i =>
      rw [List.getElem?_cons_succ]
      by_cases hc : set.holds c = true
      · rw [if_pos hc, ih]
        constructor
        · rintro ⟨taken, left, rfl, rfl, hall, rfl⟩
          refine ⟨c :: taken, left, rfl, rfl, List.forall_mem_cons.2 ⟨hc, hall⟩, ?_⟩
          rw [Nat.add_assoc, Nat.add_comm 1]
        · rintro ⟨taken, left, hrest, hlen, hall, rfl⟩
          cases taken with
          | nil => cases hlen
          | cons d taken =>
            obtain ⟨rfl, rfl⟩ := List.cons.inj hrest
            refine ⟨taken, left, rfl, Nat.succ.inj hlen, (List.forall_mem_cons.1 hall).2, ?_⟩
            rw [Nat.add_assoc, Nat.add_comm 1]
      · rw [if_neg hc]
        constructor
        · intro h
          cases h
        · rintro ⟨taken, left, hrest, hlen, hall, -⟩
          cases taken with
          | nil => cases hlen
          | cons d taken =>
            obtain ⟨rfl, -⟩ := List.cons.inj hrest
            exact absurd (hall _ List.mem_cons_self) hc

theorem mem_takeRun {least : Nat} {preference : Preference} :
    t ∈ s.takeRun set least preference ↔
      ∃ taken left, s.rest = taken ++ left ∧ least ≤ taken.length ∧
        (∀ c ∈ taken, set.holds c = true) ∧ t = ⟨s.place + taken.length, left, s.spans⟩ := by
  have hmem : t ∈ s.takeRun set least preference ↔
      t ∈ (alongFrom set s.spans s.place s.rest).drop least := by
    cases preference <;> simp [takeRun]
  rw [hmem, List.mem_iff_getElem?]
  constructor
  · rintro ⟨i, hi⟩
    rw [List.getElem?_drop, getElem?_alongFrom] at hi
    obtain ⟨taken, left, hrest, hlen, hall, ht⟩ := hi
    exact ⟨taken, left, hrest, by omega, hall, hlen ▸ ht⟩
  · rintro ⟨taken, left, hrest, hle, hall, ht⟩
    refine ⟨taken.length - least, ?_⟩
    rw [List.getElem?_drop, getElem?_alongFrom]
    have hlen : least + (taken.length - least) = taken.length := by omega
    exact ⟨taken, left, hrest, hlen.symm, hall, by rw [hlen, ht]⟩

end Runs

/-! ### Repetitions -/

theorem exists_repeated_of_takeMany {step : Scan → List Scan} {R : Text → Notes → Prop}
    (hstep : ∀ s : Scan, s.Within source → ∀ t ∈ step s,
      ∃ taken noted, R taken noted ∧ Took source s t taken noted)
    {bound : Nat} (hs : s.Within source) (h : t ∈ takeMany step bound s) :
    ∃ taken noted, Repeated R taken noted ∧ Took source s t taken noted := by
  induction bound generalizing s with
  | zero =>
    rw [takeMany, List.mem_singleton] at h
    subst h
    exact ⟨[], [], .none, .refl _⟩
  | succ bound ih =>
    rw [takeMany, List.mem_append, List.mem_flatMap, List.mem_singleton] at h
    rcases h with ⟨u, hu, h⟩ | rfl
    · obtain ⟨taken, noted, hR, htook⟩ := hstep s hs u hu
      obtain ⟨taken', noted', hR', htook'⟩ := ih (hs.took htook) h
      exact ⟨_, _, .more hR hR', htook.trans htook'⟩
    · exact ⟨[], [], .none, .refl _⟩

theorem exists_takeMany_of_repeated {step : Scan → List Scan} {R : Text → Notes → Prop}
    (hstep : ∀ s : Scan, s.Within source → ∀ taken noted left, R taken noted →
      s.rest = taken ++ left → ∃ t ∈ step s, Took source s t taken noted)
    (hne : ∀ taken noted, R taken noted → taken ≠ []) (h : Repeated R taken noted)
    {bound : Nat} (hs : s.Within source) {left : Text} (hrest : s.rest = taken ++ left)
    (hbound : taken.length ≤ bound) : ∃ t ∈ takeMany step bound s, Took source s t taken noted := by
  induction h generalizing s bound with
  | none =>
    refine ⟨s, ?_, .refl s⟩
    cases bound <;> simp [takeMany]
  | @more first rest notes later hfirst _ ih =>
    have hpos : 0 < first.length := List.length_pos_iff.2 (hne _ _ hfirst)
    rw [List.length_append] at hbound
    obtain ⟨bound, rfl⟩ := Nat.exists_eq_succ_of_ne_zero (n := bound) (by omega)
    rw [List.append_assoc] at hrest
    obtain ⟨u, hu, htook⟩ := hstep s hs first notes (rest ++ left) hfirst hrest
    have hurest : u.rest = rest ++ left := List.append_cancel_left (htook.rest.symm.trans hrest)
    obtain ⟨t, ht, htook'⟩ := ih (hs.took htook) hurest (show rest.length ≤ bound by omega)
    refine ⟨t, ?_, htook.trans htook'⟩
    rw [takeMany, List.mem_append, List.mem_flatMap]
    exact .inl ⟨u, hu, ht⟩

end Scan

namespace Pattern

open Scan

variable {p : Pattern} {source taken left : Text} {noted : Notes} {s t : Scan}

/-- Every way of a pattern is a reading of what it takes. -/
theorem exists_takes_of_ways (hs : s.Within source) (h : t ∈ p.ways s) :
    ∃ taken noted, p.Takes taken noted ∧ Took source s t taken noted := by
  induction p generalizing s t with
  | nothing =>
    rw [ways, List.mem_singleton] at h
    subst h
    exact ⟨[], [], ⟨rfl, rfl⟩, .refl _⟩
  | word letters =>
    rw [mem_ways_word] at h
    obtain ⟨-, hplace, hspans⟩ := takeWord_reaches h
    obtain ⟨taken, hrest, hfold⟩ := exists_of_takeWord h
    have hlen : taken.length = letters.length := by simpa using congrArg List.length hfold
    exact ⟨taken, [], ⟨hfold, rfl⟩, hrest, by rw [hplace, hlen], by rw [notes, hspans]; rfl⟩
  | one set =>
    rw [ways, Option.mem_toList] at h
    obtain ⟨place, rest, spans⟩ := s
    cases rest with
    | nil => cases h
    | cons c rest =>
      rw [takeOne] at h
      split at h
      · next hc =>
        cases h
        exact ⟨[c], [], ⟨⟨c, rfl, hc⟩, rfl⟩, rfl, rfl, rfl⟩
      · cases h
  | run set least preference =>
    obtain ⟨taken, left, hrest, hle, hall, rfl⟩ := mem_takeRun.1 h
    exact ⟨taken, [], ⟨⟨hle, hall⟩, rfl⟩, hrest, rfl, rfl⟩
  | andThen first second ihf ihs =>
    obtain ⟨u, hu, ht⟩ := mem_ways_andThen.1 h
    obtain ⟨s₁, n₁, hf, htook⟩ := ihf hs hu
    obtain ⟨s₂, n₂, hsec, htook'⟩ := ihs (hs.took htook) ht
    exact ⟨s₁ ++ s₂, n₂ ++ n₁, ⟨s₁, s₂, n₁, n₂, rfl, rfl, hf, hsec⟩, htook.trans htook'⟩
  | orElse first second ihf ihs =>
    rw [ways, List.mem_append] at h
    rcases h with h | h
    · obtain ⟨taken, noted, htakes, htook⟩ := ihf hs h
      exact ⟨taken, noted, .inl htakes, htook⟩
    · obtain ⟨taken, noted, htakes, htook⟩ := ihs hs h
      exact ⟨taken, noted, .inr htakes, htook⟩
  | many body ih => exact exists_repeated_of_takeMany (fun s hs t ht => ih hs ht) hs h
  | capture slot body ih =>
    rw [ways, List.mem_map] at h
    obtain ⟨u, hu, rfl⟩ := h
    obtain ⟨taken, noted, htakes, htook⟩ := ih hs hu
    exact ⟨taken, (slot, taken) :: noted, ⟨noted, htakes, rfl⟩, htook.capture hs slot⟩

/-- Every reading of the start of a text is among the ways of a pattern. -/
theorem exists_ways_of_takes (hp : p.steady = true) (hs : s.Within source)
    (h : p.Takes taken noted) (hrest : s.rest = taken ++ left) :
    ∃ t ∈ p.ways s, Took source s t taken noted := by
  induction p generalizing s taken noted left with
  | nothing =>
    obtain ⟨rfl, rfl⟩ := h
    exact ⟨s, List.mem_singleton_self s, .refl s⟩
  | word letters =>
    obtain ⟨hfold, rfl⟩ := h
    obtain ⟨place, rest, spans⟩ := s
    obtain rfl : rest = taken ++ left := hrest
    have hlen : taken.length = letters.length := by simpa using congrArg List.length hfold
    refine ⟨_, mem_ways_word.2 (takeWord_append hfold place left spans), ?_⟩
    rw [← hlen]
    exact took_of_taken
  | one set =>
    obtain ⟨⟨c, rfl, hc⟩, rfl⟩ := h
    obtain ⟨place, rest, spans⟩ := s
    obtain rfl : rest = c :: left := hrest
    refine ⟨⟨place + 1, left, spans⟩, ?_, rfl, rfl, rfl⟩
    rw [ways, Option.mem_toList]
    exact if_pos hc
  | run set least preference =>
    obtain ⟨⟨hle, hall⟩, rfl⟩ := h
    exact ⟨_, mem_takeRun.2 ⟨taken, left, hrest, hle, hall, rfl⟩, hrest, rfl, rfl⟩
  | andThen first second ihf ihs =>
    obtain ⟨s₁, s₂, n₁, n₂, rfl, rfl, hf, hsec⟩ := h
    rw [steady, Bool.and_eq_true] at hp
    rw [List.append_assoc] at hrest
    obtain ⟨u, hu, htook⟩ := ihf hp.1 hs hf hrest
    have hurest : u.rest = s₂ ++ left := List.append_cancel_left (htook.rest.symm.trans hrest)
    obtain ⟨t, ht, htook'⟩ := ihs hp.2 (hs.took htook) hsec hurest
    exact ⟨t, mem_ways_andThen.2 ⟨u, hu, ht⟩, htook.trans htook'⟩
  | orElse first second ihf ihs =>
    rw [steady, Bool.and_eq_true] at hp
    rcases h with h | h
    · obtain ⟨t, ht, htook⟩ := ihf hp.1 hs h hrest
      exact ⟨t, List.mem_append_left _ ht, htook⟩
    · obtain ⟨t, ht, htook⟩ := ihs hp.2 hs h hrest
      exact ⟨t, List.mem_append_right _ ht, htook⟩
  | many body ih =>
    rw [steady, Bool.and_eq_true] at hp
    refine exists_takeMany_of_repeated (fun s hs taken noted left h hrest => ih hp.2 hs h hrest)
      (fun taken noted h => ne_nil_of_occupies hp.1 h) h hs hrest ?_
    rw [hrest, List.length_append]
    exact Nat.le_add_right _ _
  | capture slot body ih =>
    obtain ⟨inner, h, rfl⟩ := h
    obtain ⟨u, hu, htook⟩ := ih hp hs h hrest
    exact ⟨_, List.mem_map.2 ⟨u, hu, rfl⟩, htook.capture hs slot⟩

/-! ## Matches and readings -/

theorem within_start (text : Text) : (Scan.start text).Within text :=
  rfl

/-- What a slot of a match holds is what was noted under it last. -/
theorem get?_eq_lookup {text : Text} {s : Scan} {notes : Notes} (h : s.notes text = notes)
    (slot : Nat) : (⟨text, s.spans⟩ : Groups).get? slot = notes.lookup slot := by
  subst h
  unfold Groups.get? Groups.span? Scan.notes
  dsimp only
  induction s.spans with
  | nil => rfl
  | cons mark spans ih =>
    obtain ⟨other, span⟩ := mark
    rw [List.map_cons, List.lookup_cons, List.lookup_cons]
    cases slot == other with
    | true => rfl
    | false => exact ih

/-- A match is a reading of the whole text. -/
theorem exists_takes_of_match? {text : Text} {g : Groups} (h : p.match? text = some g) :
    ∃ notes, p.Takes text notes ∧ ∀ slot, g.get? slot = notes.lookup slot := by
  rw [match?, Option.map_eq_some_iff] at h
  obtain ⟨t, ht, rfl⟩ := h
  have hempty : t.rest.isEmpty = true := by simpa using List.find?_some ht
  have hend : t.rest = [] := List.isEmpty_iff.1 hempty
  obtain ⟨taken, notes, htakes, htook⟩ :=
    exists_takes_of_ways (within_start text) (List.mem_of_find?_eq_some ht)
  have htext : text = taken := by
    have hrest := htook.rest
    rwa [hend, List.append_nil] at hrest
  have hnotes : t.notes text = notes := by
    rw [htook.notes]
    exact List.append_nil notes
  exact ⟨notes, htext ▸ htakes, get?_eq_lookup hnotes⟩

/-- A text that has a reading has a match. -/
theorem exists_match?_of_takes {text : Text} {notes : Notes} (hp : p.steady = true)
    (h : p.Takes text notes) : ∃ g, p.match? text = some g := by
  obtain ⟨t, ht, htook⟩ :=
    exists_ways_of_takes hp (within_start text) h (List.append_nil text).symm
  have hend : t.rest.isEmpty = true := by
    have hrest := htook.rest
    rw [show (Scan.start text).rest = text from rfl, List.self_eq_append_right] at hrest
    rw [hrest]
    rfl
  have hfound : ((p.ways (.start text)).find? (·.rest.isEmpty)).isSome = true :=
    List.find?_isSome.2 ⟨t, ht, hend⟩
  obtain ⟨u, hu⟩ := Option.isSome_iff_exists.1 hfound
  exact ⟨⟨text, u.spans⟩, by rw [match?, hu]; rfl⟩

end Pattern

end Grimoire
