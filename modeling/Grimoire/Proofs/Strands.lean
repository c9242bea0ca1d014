import Grimoire.Proofs.Takings

/-!
# Strands

A pattern is a sequence of steps, and where it leaves a choice it has several strands: the sequences
of simple patterns that it can come to. Every reading goes along one strand. Along the steps of a
pattern the match is the reading that prefers, step by step, the longest or the shortest run after
which the steps behind still take the rest.
-/

namespace Grimoire

/-- Whether a length is at least as good as another. -/
def Preference.Favours : Preference → Nat → Nat → Prop
  | .longest, m, n => n ≤ m
  | .shortest, m, n => m ≤ n

namespace Pattern

/-! ## Several patterns one after the other -/

/-- A reading of a text by several patterns one after the other. -/
def TakesAll : List Pattern → Text → Notes → Prop
  | [], s, notes => s = [] ∧ notes = []
  | p :: rest, s, notes =>
    ∃ s₁ s₂ n₁ n₂, s = s₁ ++ s₂ ∧ notes = n₂ ++ n₁ ∧ p.Takes s₁ n₁ ∧ TakesAll rest s₂ n₂

section TakesAll

variable {p : Pattern} {ps qs : List Pattern} {s : Text} {notes : Notes}

theorem takesAll_singleton : TakesAll [p] s notes ↔ p.Takes s notes := by
  constructor
  · rintro ⟨s₁, s₂, n₁, n₂, rfl, rfl, hp, rfl, rfl⟩
    rwa [List.append_nil]
  · intro hp
    exact ⟨s, [], notes, [], (List.append_nil s).symm, rfl, hp, rfl, rfl⟩

theorem takesAll_append : TakesAll (ps ++ qs) s notes ↔
    ∃ s₁ s₂ n₁ n₂, s = s₁ ++ s₂ ∧ notes = n₂ ++ n₁ ∧ TakesAll ps s₁ n₁ ∧ TakesAll qs s₂ n₂ := by
  induction ps generalizing s notes with
  | nil =>
    constructor
    · intro h
      exact ⟨[], s, [], notes, rfl, (List.append_nil notes).symm, ⟨rfl, rfl⟩, h⟩
    · rintro ⟨s₁, s₂, n₁, n₂, rfl, rfl, ⟨rfl, rfl⟩, h⟩
      rwa [List.nil_append, List.append_nil]
  | cons p ps ih =>
    constructor
    · rintro ⟨s₁, s₂, n₁, n₂, rfl, rfl, hp, h⟩
      obtain ⟨t₁, t₂, m₁, m₂, rfl, rfl, hps, hqs⟩ := ih.1 h
      exact ⟨s₁ ++ t₁, t₂, m₁ ++ n₁, m₂, (List.append_assoc ..).symm, List.append_assoc ..,
        ⟨s₁, t₁, n₁, m₁, rfl, rfl, hp, hps⟩, hqs⟩
    · rintro ⟨_, t₂, _, m₂, rfl, rfl, ⟨s₁, t₁, n₁, m₁, rfl, rfl, hp, hps⟩, hqs⟩
      exact ⟨s₁, t₁ ++ t₂, n₁, m₂ ++ m₁, List.append_assoc .., (List.append_assoc ..).symm, hp,
        ih.2 ⟨t₁, t₂, m₁, m₂, rfl, rfl, hps, hqs⟩⟩

/-! ### The first of several patterns -/

variable {letters : Text} {set : Charset} {least slot : Nat} {preference : Preference}

theorem takesAll_word_cons : TakesAll (.word letters :: ps) s notes ↔
    ∃ a b, s = a ++ b ∧ a.map foldCase = letters.map foldCase ∧ TakesAll ps b notes := by
  constructor
  · rintro ⟨a, b, _, n, hs, hn, ⟨ha, rfl⟩, hb⟩
    rw [List.append_nil] at hn
    exact ⟨a, b, hs, ha, hn ▸ hb⟩
  · rintro ⟨a, b, hs, ha, hb⟩
    exact ⟨a, b, [], notes, hs, (List.append_nil notes).symm, ⟨ha, rfl⟩, hb⟩

theorem takesAll_run_cons : TakesAll (.run set least preference :: ps) s notes ↔
    ∃ a b, s = a ++ b ∧ (least ≤ a.length ∧ ∀ c ∈ a, set.holds c = true) ∧ TakesAll ps b notes := by
  constructor
  · rintro ⟨a, b, _, n, hs, hn, ⟨ha, rfl⟩, hb⟩
    rw [List.append_nil] at hn
    exact ⟨a, b, hs, ha, hn ▸ hb⟩
  · rintro ⟨a, b, hs, ha, hb⟩
    exact ⟨a, b, [], notes, hs, (List.append_nil notes).symm, ⟨ha, rfl⟩, hb⟩

theorem takesAll_capture_cons : TakesAll (.capture slot p :: ps) s notes ↔
    ∃ a b inner n, s = a ++ b ∧ notes = n ++ (slot, a) :: inner ∧ p.Takes a inner ∧
      TakesAll ps b n := by
  constructor
  · rintro ⟨a, b, _, n, hs, hn, ⟨inner, ha, rfl⟩, hb⟩
    exact ⟨a, b, inner, n, hs, hn, ha, hb⟩
  · rintro ⟨a, b, inner, n, hs, hn, ha, hb⟩
    exact ⟨a, b, _, n, hs, hn, ⟨inner, ha, rfl⟩, hb⟩

end TakesAll

/-! ## Strands of a pattern -/

/-- The sequences of simple patterns that a pattern can come to. -/
def strands : Pattern → List (List Pattern)
  | nothing => [[]]
  | andThen first second => first.strands.flatMap fun strand => second.strands.map (strand ++ ·)
  | orElse first second => first.strands ++ second.strands
  | word letters => [[word letters]]
  | one set => [[one set]]
  | run set least preference => [[run set least preference]]
  | many body => [[many body]]
  | capture slot body => [[capture slot body]]

theorem takes_iff_strands {p : Pattern} {s : Text} {notes : Notes} :
    p.Takes s notes ↔ ∃ strand ∈ p.strands, TakesAll strand s notes := by
  induction p generalizing s notes with
  | nothing => simp [strands, Takes, TakesAll]
  | word | one | run | many | capture => simp [strands, takesAll_singleton]
  | andThen first second ihf ihs =>
    constructor
    · rintro ⟨s₁, s₂, n₁, n₂, rfl, rfl, hf, hs⟩
      obtain ⟨a, ha, hf⟩ := ihf.1 hf
      obtain ⟨b, hb, hs⟩ := ihs.1 hs
      refine ⟨a ++ b, ?_, takesAll_append.2 ⟨s₁, s₂, n₁, n₂, rfl, rfl, hf, hs⟩⟩
      exact List.mem_flatMap.2 ⟨a, ha, List.mem_map.2 ⟨b, hb, rfl⟩⟩
    · rintro ⟨strand, hstrand, h⟩
      obtain ⟨a, ha, hstrand⟩ := List.mem_flatMap.1 hstrand
      obtain ⟨b, hb, rfl⟩ := List.mem_map.1 hstrand
      obtain ⟨s₁, s₂, n₁, n₂, rfl, rfl, hf, hs⟩ := takesAll_append.1 h
      exact ⟨s₁, s₂, n₁, n₂, rfl, rfl, ihf.2 ⟨a, ha, hf⟩, ihs.2 ⟨b, hb, hs⟩⟩
  | orElse first second ihf ihs =>
    constructor
    · rintro (h | h)
      · obtain ⟨a, ha, h⟩ := ihf.1 h
        exact ⟨a, List.mem_append_left _ ha, h⟩
      · obtain ⟨b, hb, h⟩ := ihs.1 h
        exact ⟨b, List.mem_append_right _ hb, h⟩
    · rintro ⟨strand, hstrand, h⟩
      rcases List.mem_append.1 hstrand with ha | hb
      · exact .inl (ihf.2 ⟨strand, ha, h⟩)
      · exact .inr (ihs.2 ⟨strand, hb, h⟩)

/-- A pattern with one strand can be replaced by it. -/
theorem takesAll_cons_of_strands {p : Pattern} {strand rest : List Pattern} {s : Text}
    {notes : Notes} (hp : p.strands = [strand]) :
    TakesAll (p :: rest) s notes ↔ TakesAll (strand ++ rest) s notes := by
  have hone : ∀ {t : Text} {noted : Notes}, p.Takes t noted ↔ TakesAll strand t noted := by
    intro t noted
    rw [takes_iff_strands, hp]
    simp
  rw [takesAll_append]
  constructor
  · rintro ⟨s₁, s₂, n₁, n₂, hs, hn, hfirst, hrest⟩
    exact ⟨s₁, s₂, n₁, n₂, hs, hn, hone.1 hfirst, hrest⟩
  · rintro ⟨s₁, s₂, n₁, n₂, hs, hn, hfirst, hrest⟩
    exact ⟨s₁, s₂, n₁, n₂, hs, hn, hone.2 hfirst, hrest⟩

/-! ## Texts on one line -/

/-- A pattern without preferences and without a limit to one line. -/
def blunt : Pattern → Pattern
  | run set least _ => run (if set = .except '\n' then .any else set) least .longest
  | andThen first second => andThen first.blunt second.blunt
  | orElse first second => orElse first.blunt second.blunt
  | many body => many body.blunt
  | capture slot body => capture slot body.blunt
  | nothing => nothing
  | word letters => word letters
  | one set => one set

theorem holds_blunt {set : Charset} {c : Char} (h : set.holds c = true) :
    (if set = .except '\n' then .any else set : Charset).holds c = true := by
  split
  · rfl
  · exact h

theorem holds_of_blunt {set : Charset} {c : Char} (hc : c ≠ '\n')
    (h : (if set = .except '\n' then .any else set : Charset).holds c = true) :
    set.holds c = true := by
  split at h
  · next hset =>
    rw [hset]
    exact bne_iff_ne.2 hc
  · exact h

theorem Takes.blunt {p : Pattern} {s : Text} {notes : Notes} (h : p.Takes s notes) :
    p.blunt.Takes s notes := by
  induction p generalizing s notes with
  | nothing | word | one => exact h
  | run set least preference =>
    exact ⟨⟨h.1.1, fun c hc => holds_blunt (h.1.2 c hc)⟩, h.2⟩
  | andThen first second ihf ihs =>
    obtain ⟨s₁, s₂, n₁, n₂, hs, hn, hf, hsec⟩ := h
    exact ⟨s₁, s₂, n₁, n₂, hs, hn, ihf hf, ihs hsec⟩
  | orElse first second ihf ihs => exact h.imp ihf ihs
  | many body ih =>
    have hall : Repeated body.Takes s notes := h
    show Repeated body.blunt.Takes s notes
    clear h
    induction hall with
    | none => exact .none
    | more first _ rest => exact .more (ih first) rest
  | capture slot body ih =>
    obtain ⟨inner, h, hn⟩ := h
    exact ⟨inner, ih h, hn⟩

/-- On one line it makes no difference. -/
theorem takes_of_blunt {p : Pattern} {s : Text} {notes : Notes} (hs : '\n' ∉ s)
    (h : p.blunt.Takes s notes) : p.Takes s notes := by
  induction p generalizing s notes with
  | nothing | word | one => exact h
  | run set least preference =>
    refine ⟨⟨h.1.1, fun c hc => holds_of_blunt ?_ (h.1.2 c hc)⟩, h.2⟩
    rintro rfl
    exact hs hc
  | andThen first second ihf ihs =>
    obtain ⟨s₁, s₂, n₁, n₂, rfl, hn, hf, hsec⟩ := h
    rw [List.mem_append, not_or] at hs
    exact ⟨s₁, s₂, n₁, n₂, rfl, hn, ihf hs.1 hf, ihs hs.2 hsec⟩
  | orElse first second ihf ihs => exact h.imp (ihf hs) (ihs hs)
  | many body ih =>
    have hall : Repeated body.blunt.Takes s notes := h
    show Repeated body.Takes s notes
    clear h
    induction hall with
    | none => exact .none
    | more first _ rest =>
      rw [List.mem_append, not_or] at hs
      exact .more (ih hs.1 first) (rest hs.2)
  | capture slot body ih =>
    obtain ⟨inner, h, hn⟩ := h
    exact ⟨inner, ih hs h, hn⟩

theorem TakesAll.blunt {ps : List Pattern} {s : Text} {notes : Notes} (h : TakesAll ps s notes) :
    TakesAll (ps.map Pattern.blunt) s notes := by
  induction ps generalizing s notes with
  | nil => exact h
  | cons p ps ih =>
    obtain ⟨s₁, s₂, n₁, n₂, hs, hn, hp, hps⟩ := h
    exact ⟨s₁, s₂, n₁, n₂, hs, hn, hp.blunt, ih hps⟩

theorem takesAll_of_blunt {ps : List Pattern} {s : Text} {notes : Notes} (hs : '\n' ∉ s)
    (h : TakesAll (ps.map Pattern.blunt) s notes) : TakesAll ps s notes := by
  induction ps generalizing s notes with
  | nil => exact h
  | cons p ps ih =>
    obtain ⟨s₁, s₂, n₁, n₂, rfl, hn, hp, hps⟩ := h
    rw [List.mem_append, not_or] at hs
    exact ⟨s₁, s₂, n₁, n₂, rfl, hn, takes_of_blunt hs.1 hp, ih hs.2 hps⟩

/-! ## Steps and preferences -/

/-- The patterns that a pattern goes through one after the other. -/
def steps : Pattern → List Pattern
  | nothing => []
  | andThen first second => first.steps ++ second.steps
  | word letters => [word letters]
  | one set => [one set]
  | run set least preference => [run set least preference]
  | orElse first second => [orElse first second]
  | many body => [many body]
  | capture slot body => [capture slot body]

/-- All the ways through several patterns, the preferred one first. -/
def waysAll : List Pattern → Scan → List Scan
  | [], s => [s]
  | p :: rest, s => (p.ways s).flatMap (waysAll rest)

theorem waysAll_append (ps qs : List Pattern) (s : Scan) :
    waysAll (ps ++ qs) s = (waysAll ps s).flatMap (waysAll qs) := by
  induction ps generalizing s with
  | nil => exact (List.flatMap_singleton (waysAll qs) s).symm
  | cons p ps ih =>
    simp only [List.cons_append, waysAll, List.flatMap_assoc]
    exact List.flatMap_congr fun t _ => ih t

theorem ways_eq_waysAll (p : Pattern) (s : Scan) : p.ways s = waysAll p.steps s := by
  induction p generalizing s with
  | nothing => rfl
  | word | one | run | orElse | many | capture =>
    simp only [steps, waysAll, List.flatMap_singleton']
  | andThen first second ihf ihs =>
    rw [ways, steps, waysAll_append, ihf]
    exact List.flatMap_congr fun t _ => ihs t

/-- A reading goes through the steps. -/
theorem takes_iff_steps {p : Pattern} {s : Text} {notes : Notes} :
    p.Takes s notes ↔ TakesAll p.steps s notes := by
  induction p generalizing s notes with
  | nothing => rfl
  | word | one | run | orElse | many | capture => exact takesAll_singleton.symm
  | andThen first second ihf ihs =>
    rw [steps, takesAll_append]
    simp only [Takes, ihf, ihs]

/-- Which length a pattern prefers, if it is a run. -/
def preference? : Pattern → Option Preference
  | run _ _ preference => some preference
  | capture _ body => body.preference?
  | nothing | word _ | one _ | andThen _ _ | orElse _ _ | many _ => none

/-- The reading that prefers, step by step, the best length with which the steps behind can still
take the rest. -/
def Prefers : List Pattern → Text → Notes → Prop
  | [], s, notes => s = [] ∧ notes = []
  | p :: rest, s, notes =>
    ∃ s₁ s₂ n₁ n₂, s = s₁ ++ s₂ ∧ notes = n₂ ++ n₁ ∧ p.Takes s₁ n₁ ∧ Prefers rest s₂ n₂ ∧
      ∀ preference, p.preference? = some preference → ∀ a b, s₁ ++ s₂ = a ++ b →
        (∃ noted, p.Takes a noted) → (∃ noted, TakesAll rest b noted) →
        preference.Favours s₁.length a.length

section Prefers

open Scan

variable {p : Pattern} {ps qs : List Pattern} {source text : Text} {notes : Notes} {s t : Scan}

theorem Prefers.takesAll (h : Prefers ps text notes) : TakesAll ps text notes := by
  induction ps generalizing text notes with
  | nil => exact h
  | cons p ps ih =>
    obtain ⟨s₁, s₂, n₁, n₂, hs, hn, hp, hps, -⟩ := h
    exact ⟨s₁, s₂, n₁, n₂, hs, hn, hp, ih hps⟩

theorem Prefers.append (h : Prefers (ps ++ qs) text notes) :
    ∃ s₁ s₂ n₁ n₂, text = s₁ ++ s₂ ∧ notes = n₂ ++ n₁ ∧ TakesAll ps s₁ n₁ ∧ Prefers qs s₂ n₂ := by
  induction ps generalizing text notes with
  | nil => exact ⟨[], text, [], notes, rfl, (List.append_nil notes).symm, ⟨rfl, rfl⟩, h⟩
  | cons p ps ih =>
    obtain ⟨s₁, s₂, n₁, n₂, rfl, rfl, hp, hps, -⟩ := h
    obtain ⟨t₁, t₂, m₁, m₂, rfl, rfl, hfront, hback⟩ := ih hps
    exact ⟨s₁ ++ t₁, t₂, m₁ ++ n₁, m₂, (List.append_assoc ..).symm, List.append_assoc ..,
      ⟨s₁, t₁, n₁, m₁, rfl, rfl, hp, hfront⟩, hback⟩

/-- Where an optional pattern is not taken behind a run that takes as little as it can, no shorter
run leaves a text that begins with it. -/
theorem Prefers.optional {short clause : Pattern}
    (h : Prefers (ps ++ (short :: optional clause :: qs)) text notes)
    (hshort : short.preference? = some .shortest) :
    TakesAll (ps ++ (short :: clause :: qs)) text notes ∨
      ∃ a t b n₁ n₂ n₃, text = a ++ (t ++ b) ∧ TakesAll ps a n₁ ∧ short.Takes t n₂ ∧
        TakesAll qs b n₃ ∧ ∀ x y, t ++ b = x ++ y → (∃ noted, short.Takes x noted) →
          (∃ noted, TakesAll (clause :: qs) y noted) → t.length ≤ x.length := by
  obtain ⟨a, s, n₁, m, rfl, rfl, ha, hs⟩ := h.append
  obtain ⟨t, u, n₂, k, rfl, rfl, ht, hu, hbest⟩ := hs
  obtain ⟨x, b, nx, nb, rfl, rfl, hx, hb, -⟩ := hu
  rcases hx with hclause | ⟨rfl, rfl⟩
  · left
    exact takesAll_append.2 ⟨a, _, n₁, _, rfl, rfl, ha, t, x ++ b, n₂, _, rfl, rfl, ht,
      x, b, nx, nb, rfl, rfl, hclause, hb.takesAll⟩
  · right
    refine ⟨a, t, b, n₁, n₂, nb, by simp, ha, ht, hb.takesAll, ?_⟩
    rintro x y hxy hshorter ⟨noted, c, z, nc, nz, rfl, rfl, hc, hz⟩
    exact hbest _ hshort x (c ++ z) (by simpa using hxy) hshorter
      ⟨_, c, z, nc, nz, rfl, rfl, .inl hc, hz⟩

theorem pairwise_alongFrom {set : Charset} {spans : List (Nat × Span)} {place : Nat}
    {rest : Text} : (alongFrom set spans place rest).Pairwise fun t u => t.place ≤ u.place := by
  induction rest generalizing place with
  | nil => exact List.pairwise_singleton _ _
  | cons c rest ih =>
    rw [alongFrom, List.pairwise_cons]
    constructor
    · intro u hu
      split at hu
      · exact Nat.le_trans (Nat.le_succ place) (alongFrom_reaches hu).1
      · cases hu
    · split
      · exact ih
      · exact List.Pairwise.nil

/-- The ways of a run come in the order of preference. -/
theorem pairwise_ways {preference : Preference} (h : p.preference? = some preference) (s : Scan) :
    (p.ways s).Pairwise fun t u => preference.Favours t.place u.place := by
  induction p with
  | run set least other =>
    cases h
    have hdrop := pairwise_alongFrom.sublist
      (List.drop_sublist least (alongFrom set s.spans s.place s.rest))
    cases preference with
    | shortest => exact hdrop
    | longest => exact List.pairwise_reverse.2 hdrop
  | capture slot body ih =>
    rw [ways, List.pairwise_map]
    exact ih h
  | nothing | word | one | andThen | orElse | many => cases h

theorem exists_waysAll_of_takesAll (hps : ∀ p ∈ ps, p.steady = true) (hs : s.Within source)
    (h : TakesAll ps s.rest notes) : ∃ t ∈ waysAll ps s, t.rest = [] := by
  induction ps generalizing s notes with
  | nil => exact ⟨s, List.mem_singleton_self s, h.1⟩
  | cons p ps ih =>
    obtain ⟨s₁, s₂, n₁, n₂, hrest, -, hp, h⟩ := h
    rw [List.forall_mem_cons] at hps
    obtain ⟨u, hu, htook⟩ := exists_ways_of_takes hps.1 hs hp hrest
    have hurest : u.rest = s₂ := List.append_cancel_left (htook.rest.symm.trans hrest)
    obtain ⟨t, ht, hend⟩ := ih hps.2 (hs.took htook) (hurest ▸ h)
    exact ⟨t, List.mem_flatMap.2 ⟨u, hu, ht⟩, hend⟩

theorem favours_refl (preference : Preference) (n : Nat) : preference.Favours n n := by
  cases preference <;> exact Nat.le_refl n

theorem favours_of_add {preference : Preference} {place m n : Nat}
    (h : preference.Favours (place + m) (place + n)) : preference.Favours m n := by
  cases preference <;> exact Nat.le_of_add_le_add_left h

/-- The first way through several patterns to the end of the text is the preferred reading. -/
theorem exists_prefers_of_find? (hps : ∀ p ∈ ps, p.steady = true) (hs : s.Within source)
    (h : (waysAll ps s).find? (·.rest.isEmpty) = some t) :
    ∃ notes, Prefers ps s.rest notes ∧ Took source s t s.rest notes := by
  induction ps generalizing s with
  | nil =>
    obtain rfl : t = s := List.mem_singleton.1 (List.mem_of_find?_eq_some h)
    have hend : t.rest = [] := by simpa using List.find?_some h
    refine ⟨[], ⟨hend, rfl⟩, ?_⟩
    rw [hend]
    exact .refl t
  | cons p ps ih =>
    rw [waysAll, List.find?_flatMap, List.findSome?_eq_some_iff] at h
    obtain ⟨before, u, after, hways, hu, hnone⟩ := h
    rw [List.forall_mem_cons] at hps
    have hmem : u ∈ p.ways s := by rw [hways]; simp
    obtain ⟨s₁, n₁, hp, htook⟩ := exists_takes_of_ways hs hmem
    obtain ⟨n₂, hprefers, htook'⟩ := ih hps.2 (hs.took htook) hu
    refine ⟨n₂ ++ n₁, ⟨s₁, u.rest, n₁, n₂, htook.rest, rfl, hp, hprefers, ?_⟩, ?_⟩
    · rintro preference hpref a b hsplit ⟨noted, ha⟩ ⟨later, hb⟩
      -- another length that works belongs to a way that is not before the one found
      obtain ⟨v, hv, htaken⟩ := exists_ways_of_takes hps.1 hs ha (htook.rest.trans hsplit)
      have hvrest : v.rest = b :=
        List.append_cancel_left (htaken.rest.symm.trans (htook.rest.trans hsplit))
      obtain ⟨w, hw, hend⟩ := exists_waysAll_of_takesAll hps.2 (hs.took htaken) (hvrest ▸ hb)
      have hbehind : v ∈ u :: after := by
        rw [hways, List.mem_append] at hv
        refine hv.resolve_left fun hv => ?_
        have hfail := List.find?_eq_none.1 (hnone v hv) w hw
        rw [hend] at hfail
        exact hfail rfl
      have hsorted := pairwise_ways hpref s
      rw [hways, List.pairwise_append, List.pairwise_cons] at hsorted
      have hplaces : preference.Favours u.place v.place := by
        rcases List.mem_cons.1 hbehind with rfl | hafter
        · exact favours_refl preference _
        · exact hsorted.2.1.1 v hafter
      rw [htook.place, htaken.place] at hplaces
      exact favours_of_add hplaces
    · have hboth := htook.trans htook'
      rwa [← htook.rest] at hboth

end Prefers

/-! ## Where slots are filled -/

/-- Whether a pattern fills one slot at most, and that with a run. -/
def simple : Pattern → Bool
  | word _ | one _ | run _ _ _ | capture _ (run _ _ _) => true
  | nothing | andThen _ _ | orElse _ _ | many _ | capture _ _ => false

/-- What is noted where a pattern takes a text from a position on. -/
def noted (place : Nat) (taken : Text) : Pattern → List (Nat × Span)
  | capture slot _ => [(slot, ⟨place, place + taken.length⟩)]
  | nothing | word _ | one _ | run _ _ _ | andThen _ _ | orElse _ _ | many _ => []

/-- A reading of a text from a position on, with the stretches that are noted. -/
def Laid : List Pattern → Nat → Text → List (Nat × Span) → Prop
  | [], _, s, spans => s = [] ∧ spans = []
  | p :: rest, place, s, spans => ∃ s₁ s₂ later, s = s₁ ++ s₂ ∧ spans = later ++ p.noted place s₁ ∧
      (∃ notes, p.Takes s₁ notes) ∧ Laid rest (place + s₁.length) s₂ later

section Laid

open Scan

variable {p : Pattern} {ps : List Pattern} {source : Text} {s t : Scan}

theorem spans_of_simple (hp : p.simple = true) (h : t ∈ p.ways s) {taken : Text} {notes : Notes}
    (htook : Took source s t taken notes) : t.spans = p.noted s.place taken ++ s.spans := by
  match p, hp with
  | word letters, _ => exact (takeWord_reaches (mem_ways_word.1 h)).2.2
  | one set, _ =>
    obtain ⟨place, rest, spans⟩ := s
    rw [ways, Option.mem_toList] at h
    cases rest with
    | nil => cases h
    | cons c rest =>
      rw [takeOne] at h
      split at h
      · cases h
        rfl
      · cases h
  | run set least preference, _ =>
    obtain ⟨taken, left, -, -, -, rfl⟩ := mem_takeRun.1 h
    rfl
  | capture slot (run set least preference), _ =>
    rw [ways, List.mem_map] at h
    obtain ⟨u, hu, rfl⟩ := h
    obtain ⟨taken, left, -, -, -, rfl⟩ := mem_takeRun.1 hu
    rw [htook.place]
    rfl

theorem exists_laid_of_waysAll (hps : ∀ p ∈ ps, p.simple = true) (hs : s.Within source)
    (h : t ∈ waysAll ps s) :
    ∃ taken spans, s.rest = taken ++ t.rest ∧ t.spans = spans ++ s.spans ∧
      Laid ps s.place taken spans := by
  induction ps generalizing s with
  | nil =>
    obtain rfl := List.mem_singleton.1 h
    exact ⟨[], [], rfl, rfl, rfl, rfl⟩
  | cons p ps ih =>
    rw [List.forall_mem_cons] at hps
    obtain ⟨u, hu, ht⟩ := List.mem_flatMap.1 h
    obtain ⟨taken, notes, htakes, htook⟩ := exists_takes_of_ways hs hu
    obtain ⟨taken', spans, hrest, hspans, hlaid⟩ := ih hps.2 (hs.took htook) ht
    rw [spans_of_simple hps.1 hu htook] at hspans
    refine ⟨taken ++ taken', spans ++ p.noted s.place taken, ?_, ?_, taken, taken', spans, rfl, rfl,
      ⟨notes, htakes⟩, htook.place ▸ hlaid⟩
    · rw [htook.rest, hrest, List.append_assoc]
    · rw [hspans, List.append_assoc]

/-- A match with the slots at their places. -/
theorem laid_of_match? {text : Text} {g : Groups} (hp : ∀ q ∈ p.steps, q.simple = true)
    (h : p.match? text = some g) : Laid p.steps 0 text g.spans := by
  rw [match?, Option.map_eq_some_iff, ways_eq_waysAll] at h
  obtain ⟨t, ht, rfl⟩ := h
  have hempty : t.rest.isEmpty = true := by simpa using List.find?_some ht
  have hend : t.rest = [] := List.isEmpty_iff.1 hempty
  obtain ⟨taken, spans, hrest, hspans, hlaid⟩ :=
    exists_laid_of_waysAll hp (within_start text) (List.mem_of_find?_eq_some ht)
  have htext : text = taken := by
    rw [hend, List.append_nil] at hrest
    exact hrest
  have hall : t.spans = spans := hspans.trans (List.append_nil spans)
  rw [hall, htext]
  exact hlaid

end Laid

theorem steady_of_mem_steps {p q : Pattern} (hp : p.steady = true) (hq : q ∈ p.steps) :
    q.steady = true := by
  induction p with
  | nothing => cases hq
  | word | one | run | orElse | many | capture =>
    obtain rfl := List.mem_singleton.1 hq
    exact hp
  | andThen first second ihf ihs =>
    rw [steady, Bool.and_eq_true] at hp
    exact (List.mem_append.1 hq).elim (ihf hp.1) (ihs hp.2)

/-- A match is the preferred reading of the whole text. -/
theorem exists_prefers_of_match? {p : Pattern} {text : Text} {g : Groups} (hp : p.steady = true)
    (h : p.match? text = some g) :
    ∃ notes, Prefers p.steps text notes ∧ ∀ slot, g.get? slot = notes.lookup slot := by
  rw [match?, Option.map_eq_some_iff, ways_eq_waysAll] at h
  obtain ⟨t, ht, rfl⟩ := h
  obtain ⟨notes, hprefers, htook⟩ :=
    exists_prefers_of_find? (fun q hq => steady_of_mem_steps hp hq) (within_start text) ht
  have hnotes : t.notes text = notes := by
    rw [htook.notes]
    exact List.append_nil notes
  exact ⟨notes, hprefers, get?_eq_lookup hnotes⟩

end Pattern

end Grimoire
