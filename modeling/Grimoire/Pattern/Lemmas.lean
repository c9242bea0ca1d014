import Grimoire.Pattern

/-!
# What a match leaves and captures

A way of a pattern never goes back: the position reached and the text left always add up to the
same end, and every stretch noted on the way begins at or after the start of the way. Hence what a
pattern captures after a keyword is shorter than the text it matches.
-/

namespace Grimoire

namespace Scan

/-- The position at which the text ends. -/
def stop (s : Scan) : Nat :=
  s.place + s.rest.length

/-- `t` is reached from `s` by taking text and noting stretches of it. -/
def Reaches (s t : Scan) : Prop :=
  s.place ≤ t.place ∧ s.stop = t.stop ∧
    ∀ mark ∈ t.spans, mark ∈ s.spans ∨ s.place ≤ mark.2.start

theorem Reaches.refl (s : Scan) : s.Reaches s :=
  ⟨Nat.le_refl _, rfl, fun _ h => .inl h⟩

theorem Reaches.trans {s t u : Scan} (h : s.Reaches t) (h' : t.Reaches u) : s.Reaches u := by
  refine ⟨Nat.le_trans h.1 h'.1, h.2.1.trans h'.2.1, fun mark hm => ?_⟩
  rcases h'.2.2 mark hm with hm | hm
  · exact h.2.2 mark hm
  · exact .inr (Nat.le_trans h.1 hm)

/-- Taking some of the text left without noting anything. -/
theorem reaches_of_taken {place n : Nat} {rest left : Text} {spans : List (Nat × Span)}
    (h : rest.length = n + left.length) : Reaches ⟨place, rest, spans⟩ ⟨place + n, left, spans⟩ :=
  ⟨Nat.le_add_right _ _, by simp [stop, h]; omega, fun _ hm => .inl hm⟩

theorem takeWord_reaches {letters : Text} {s t : Scan} (h : s.takeWord letters = some t) :
    s.Reaches t ∧ t.place = s.place + letters.length ∧ t.spans = s.spans := by
  induction letters generalizing s with
  | nil =>
    rw [takeWord] at h
    injection h with h
    subst h
    exact ⟨.refl _, rfl, rfl⟩
  | cons letter letters ih =>
    obtain ⟨place, rest, spans⟩ := s
    cases rest with
    | nil => simp [takeWord] at h
    | cons c rest =>
      rw [takeWord] at h
      split at h
      · obtain ⟨hr, hp, hs⟩ := ih h
        refine ⟨Reaches.trans (reaches_of_taken (by simp; omega)) hr, ?_, hs⟩
        rw [hp]
        simp
        omega
      · simp at h

theorem takeOne_reaches {set : Charset} {s t : Scan} (h : s.takeOne set = some t) :
    s.Reaches t := by
  obtain ⟨place, rest, spans⟩ := s
  cases rest with
  | nil => simp [takeOne] at h
  | cons c rest =>
    rw [takeOne] at h
    split at h
    · injection h with h
      subst h
      exact reaches_of_taken (by simp; omega)
    · simp at h

theorem alongFrom_reaches {set : Charset} {spans : List (Nat × Span)} {place : Nat} {rest : Text}
    {t : Scan} (h : t ∈ alongFrom set spans place rest) : Reaches ⟨place, rest, spans⟩ t := by
  induction rest generalizing place with
  | nil =>
    rw [alongFrom, List.mem_singleton] at h
    subst h
    exact .refl _
  | cons c rest ih =>
    rw [alongFrom, List.mem_cons] at h
    rcases h with rfl | h
    · exact .refl _
    · split at h
      · exact Reaches.trans (reaches_of_taken (by simp; omega)) (ih h)
      · simp at h

theorem takeRun_reaches {set : Charset} {least : Nat} {preference : Preference} {s t : Scan}
    (h : t ∈ s.takeRun set least preference) : s.Reaches t := by
  have h : t ∈ (alongFrom set s.spans s.place s.rest).drop least := by
    cases preference <;> simpa [takeRun] using h
  exact alongFrom_reaches (List.mem_of_mem_drop h)

theorem takeMany_reaches {step : Scan → List Scan}
    (hstep : ∀ s, ∀ t ∈ step s, s.Reaches t) {bound : Nat} {s t : Scan}
    (h : t ∈ takeMany step bound s) : s.Reaches t := by
  induction bound generalizing s with
  | zero =>
    rw [takeMany, List.mem_singleton] at h
    subst h
    exact .refl _
  | succ bound ih =>
    rw [takeMany, List.mem_append, List.mem_flatMap, List.mem_singleton] at h
    rcases h with ⟨u, hu, h⟩ | rfl
    · exact (hstep s u hu).trans (ih h)
    · exact .refl _

end Scan

namespace Pattern

/-- Every way of a pattern goes forward. -/
theorem ways_reaches {p : Pattern} {s t : Scan} (h : t ∈ p.ways s) : s.Reaches t := by
  induction p generalizing s t with
  | nothing =>
    rw [ways, List.mem_singleton] at h
    subst h
    exact .refl _
  | word letters =>
    rw [ways, Option.mem_toList] at h
    exact (Scan.takeWord_reaches h).1
  | one set =>
    rw [ways, Option.mem_toList] at h
    exact Scan.takeOne_reaches h
  | run set least preference => exact Scan.takeRun_reaches h
  | andThen first second ihf ihs =>
    rw [ways, List.mem_flatMap] at h
    obtain ⟨u, hu, h⟩ := h
    exact (ihf hu).trans (ihs h)
  | orElse first second ihf ihs =>
    rw [ways, List.mem_append] at h
    exact h.elim ihf ihs
  | many body ih => exact Scan.takeMany_reaches (fun _ _ hu => ih hu) h
  | capture slot body ih =>
    rw [ways, List.mem_map] at h
    obtain ⟨u, hu, rfl⟩ := h
    obtain ⟨hp, hs, hm⟩ := ih hu
    refine ⟨hp, hs, fun mark h => ?_⟩
    rw [List.mem_cons] at h
    rcases h with rfl | h
    · exact .inr (Nat.le_refl _)
    · exact hm mark h

/-- The text left by a match that begins with a keyword is shorter than the text. -/
theorem length_matchStart?_lt {letters : Text} {p : Pattern} {s rest : Text} {g : Groups}
    (hne : letters ≠ []) (h : (andThen (word letters) p).matchStart? s = some (g, rest)) :
    rest.length < s.length := by
  rw [matchStart?, Option.map_eq_some_iff] at h
  obtain ⟨t, ht, h⟩ := h
  injection h with _ h
  subst h
  have ht := List.mem_of_mem_head? ht
  rw [ways, List.mem_flatMap] at ht
  obtain ⟨u, hu, ht⟩ := ht
  rw [ways, Option.mem_toList] at hu
  obtain ⟨⟨_, hstop, _⟩, hplace, _⟩ := Scan.takeWord_reaches hu
  obtain ⟨hle, hstop', _⟩ := ways_reaches ht
  have hpos : 0 < letters.length := List.length_pos_iff.2 hne
  simp only [Scan.stop, Scan.start] at hstop hplace hstop'
  omega

/-- What a pattern captures after a keyword is shorter than the text it matches. -/
theorem length_capture_lt {letters : Text} {p : Pattern} {s : Text} {g : Groups} (slot : Nat)
    (hne : letters ≠ []) (h : (andThen (word letters) p).match? s = some g) :
    (g.text slot).length < s.length := by
  rw [match?, Option.map_eq_some_iff] at h
  obtain ⟨t, ht, rfl⟩ := h
  have ht := List.mem_of_find?_eq_some ht
  rw [ways, List.mem_flatMap] at ht
  obtain ⟨u, hu, ht⟩ := ht
  rw [ways, Option.mem_toList] at hu
  obtain ⟨⟨_, hstop, _⟩, hplace, hspans⟩ := Scan.takeWord_reaches hu
  have hpos : 0 < letters.length := List.length_pos_iff.2 hne
  simp only [Scan.stop, Scan.start, Nat.zero_add] at hstop hplace
  have hs : 0 < s.length := by omega
  unfold Groups.text Groups.get? Groups.span?
  cases hlook : t.spans.lookup slot with
  | none => simpa using hs
  | some span =>
    have hmem : (slot, span) ∈ t.spans := by
      obtain ⟨l₁, l₂, h, _⟩ := List.lookup_eq_some_iff.1 hlook
      simp [h]
    have hstart : 1 ≤ span.start := by
      rcases (ways_reaches ht).2.2 _ hmem with hm | hm
      · rw [hspans] at hm
        simp [Scan.start] at hm
      · simp only at hm
        omega
    simp only [Option.map_some, Option.getD_some, List.length_take, List.length_drop]
    omega

end Pattern

end Grimoire
