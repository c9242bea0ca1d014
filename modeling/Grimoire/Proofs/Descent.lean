import Grimoire.Proofs.Seams

/-!
# Calls for shorter texts

Evaluation is recursive: the value of a text is made of the values of its parts, a condition
evaluates its operands, and a call of a shape evaluates the body. The calls in progress at one time
form a stack. A call is for a shorter text than the call above which it stands, but for two that do
not repeat: a condition without operands evaluates its text as an expression, and a call of a shape
evaluates the whole body. So a stack is hardly higher than the first text is long, and a shape is
called nowhere but at its bottom.
-/

namespace Grimoire

open Text

/-! ## Operands of conditions -/

theorem Text.eq_nil_of_byteLength_eq_zero {s : Text} (h : byteLength s = 0) : s = [] := by
  cases s with
  | nil => rfl
  | cons c s =>
    have hpos := c.utf8Size_pos
    rw [byteLength_cons] at h
    omega

/-- A stretch of a text that leaves out no bytes is as long as the text. -/
theorem Text.length_le_of_byteLength_take {s : Text} {start stop : Nat}
    (hstart : byteLength (s.take start) = 0) (hstop : byteLength (s.take stop) = byteLength s) :
    s.length ≤ stop - start := by
  have hback : s.drop stop = [] := by
    have hbytes := byteLength_append (s.take stop) (s.drop stop)
    rw [List.take_append_drop, hstop] at hbytes
    exact eq_nil_of_byteLength_eq_zero (by omega)
  rw [List.drop_eq_nil_iff] at hback
  rcases List.take_eq_nil_iff.1 (eq_nil_of_byteLength_eq_zero hstart) with rfl | rfl
  · exact hback
  · exact Nat.zero_le _

namespace Pattern

variable {ps : List Pattern} {s : Text} {spans : List (Nat × Span)} {place : Nat}

/-- How many of several patterns take a character at least and note nothing. -/
def separators (ps : List Pattern) : Nat :=
  ps.countP fun p => p.occupies && (p.noted 0 []).isEmpty

theorem separators_cons_le (ps : List Pattern) {p : Pattern} {taken : Text} {notes : Notes}
    (hp : p.Takes taken notes) : separators (p :: ps) ≤ taken.length + separators ps := by
  rw [separators, List.countP_cons, ← separators]
  split
  · next hseparates =>
    have hne := ne_nil_of_occupies (Bool.and_eq_true_iff.1 hseparates).1 hp
    have hpos := List.length_pos_iff.2 hne
    omega
  · omega

theorem separators_le_of_laid (h : Laid ps place s spans) : separators ps ≤ s.length := by
  induction ps generalizing place s spans with
  | nil => exact Nat.zero_le _
  | cons p ps ih =>
    obtain ⟨s₁, s₂, later, rfl, -, ⟨notes, hp⟩, hrest⟩ := h
    have hle := ih hrest
    have hcons := separators_cons_le ps hp
    rw [List.length_append]
    omega

/-- Beside what is noted there is room for the patterns that note nothing. -/
theorem length_add_separators_le_of_laid (h : Laid ps place s spans) {mark : Nat × Span}
    (hmark : mark ∈ spans) : mark.2.stop - mark.2.start + separators ps ≤ s.length := by
  induction ps generalizing place s spans with
  | nil =>
    rw [h.2] at hmark
    cases hmark
  | cons p ps ih =>
    obtain ⟨s₁, s₂, later, rfl, rfl, ⟨notes, hp⟩, hrest⟩ := h
    rw [List.length_append]
    rcases List.mem_append.1 hmark with hmark | hmark
    · have hle := ih hrest hmark
      have hcons := separators_cons_le ps hp
      omega
    · cases p with
      | capture slot body =>
        -- what is noted here is all that this pattern takes, and it is no separator itself
        obtain rfl := List.mem_singleton.1 hmark
        have hle := separators_le_of_laid hrest
        have hsame : separators (capture slot body :: ps) = separators ps := by
          simp [separators, noted]
        rw [hsame]
        dsimp only
        omega
      | _ => cases hmark

end Pattern

namespace Phrase

open Pattern

variable {p : Phrase} {s part left right : Text} {g : Groups} {slot : Nat}

theorem separators_pos (p : Phrase) : 0 < separators p.pattern.steps := by
  cases p <;> decide

/-- An operand leaves out the keywords of its phrase. -/
theorem length_lt_of_cutsOut (h : p.pattern.match? s.mask = some g) (hpart : CutsOut s g slot part) :
    part.length < s.length := by
  obtain ⟨span, a, b, hspan, hs, hstart, hstop, -⟩ := hpart
  have hmark : (slot, span) ∈ g.spans := by
    obtain ⟨front, back, hspans, -⟩ := List.lookup_eq_some_iff.1 hspan
    simp [hspans]
  have hstretch := length_add_separators_le_of_laid (laid_of_match? p.simple_steps h) hmark
  have hpos := p.separators_pos
  by_contra hlong
  -- the part is the whole text, so its stretch is the whole copy and leaves no room for a keyword
  have hlength : s.length = a.length + (part.length + b.length) := by
    rw [hs, List.length_append, List.length_append]
  obtain rfl : a = [] := List.eq_nil_of_length_eq_zero (by omega)
  obtain rfl : b = [] := List.eq_nil_of_length_eq_zero (by omega)
  obtain rfl : s = part := by simpa using hs
  have hwhole : s.mask.length ≤ span.stop - span.start :=
    length_le_of_byteLength_take hstart (hstop.trans (byteLength_mask s).symm)
  dsimp only at hstretch
  omega

/-- The operands of a phrase are shorter than the text that it takes. -/
theorem length_lt_of_find? (h : find? s = some (p, left, right)) :
    left.length < s.length ∧ right.length < s.length := by
  obtain ⟨q, -, hq⟩ := List.exists_of_findSome?_eq_some h
  obtain ⟨operands, hoperands, htaken⟩ := Option.map_eq_some_iff.1 hq
  cases htaken
  cases hmatch : p.pattern.match? s.mask with
  | none => simp [operands?, hmatch] at hoperands
  | some g =>
    obtain ⟨l, hl⟩ := exists_cutsOut hmatch 1 (by decide)
    obtain ⟨r, hr⟩ := exists_cutsOut hmatch 2 (by decide)
    rw [operands?_of_cutsOut hmatch hl hr] at hoperands
    cases hoperands
    exact ⟨length_lt_of_cutsOut hmatch hl, length_lt_of_cutsOut hmatch hr⟩

end Phrase

/-! ## Calls -/

/-- A call that is in progress. -/
inductive Activation where
  /-- A text is evaluated as an expression. -/
  | value (s : Text)
  /-- A text is evaluated as a condition. -/
  | condition (s : Text)
  /-- A shape is called. -/
  | shape (f : Shape)
  deriving DecidableEq, Repr

namespace Activation

/-- What a call may call. An expression calls for its parts and a condition for its operands, all of
which are shorter texts, and no call is for a shape. -/
inductive Calls : Activation → Activation → Prop where
  /-- For a piece of a list, a value of a tome, an argument, the inside of parentheses or one side of
  an operator. -/
  | part {s part : Text} (hpart : part ∈ (Layer.of s.trim).parts) (h : part.length < s.length) :
    Calls (value s) (value part)
  | operand {s left right operand : Text} {p : Phrase}
    (hfind : Phrase.find? s.trim = some (p, left, right)) (hoperand : operand ∈ [left, right])
    (h : operand.length < s.length) : Calls (condition s) (value operand)
  | whole {s : Text} (hfind : Phrase.find? s.trim = none) : Calls (condition s) (value s.trim)
  | comparison {f : Shape} (hcomparison : Condition.isComparison f.body = true) :
    Calls (shape f) (condition f.body)
  | body {f : Shape} (hcomparison : Condition.isComparison f.body = false) :
    Calls (shape f) (value f.body)

/-- The shape that is called, if one is. -/
def shape? : Activation → Option Shape
  | shape f => some f
  | value _ | condition _ => none

/-- How many calls are in progress at most from a call on. -/
def height : Activation → Nat
  | value s => s.length + 1
  | condition s => if Condition.isComparison s then s.length + 1 else s.length + 2
  | shape f => f.body.length + 2

variable {origin caller callee : Activation} {stack : List Activation}

theorem height_condition_of_some {s : Text} {found : Phrase × Text × Text}
    (hfind : Phrase.find? s.trim = some found) : (condition s).height = s.length + 1 := by
  rw [height, Condition.isComparison, hfind]
  rfl

theorem height_condition_of_none {s : Text} (hfind : Phrase.find? s.trim = none) :
    (condition s).height = s.length + 2 := by
  rw [height, Condition.isComparison, hfind]
  rfl

theorem Calls.height_lt (h : caller.Calls callee) : callee.height < caller.height := by
  cases h with
  | part _ h => exact Nat.succ_lt_succ h
  | operand hfind _ h =>
    rw [height, height_condition_of_some hfind]
    exact Nat.succ_lt_succ h
  | @whole s hfind =>
    have htrim := length_trim_le s
    rw [height, height_condition_of_none hfind]
    omega
  | comparison hcomparison =>
    rw [height, height, if_pos hcomparison]
    exact Nat.lt_succ_self _
  | body => exact Nat.lt_succ_self _

theorem height_pos (a : Activation) : 0 < a.height := by
  cases a with
  | value s => exact Nat.succ_pos _
  | condition s =>
    rw [height]
    split <;> exact Nat.succ_pos _
  | shape f => exact Nat.succ_pos _

/-- A stack of calls in progress, the innermost first, that begins with a given call. Each of the
others is one that the call below it may call. -/
structure Stacks (origin : Activation) (stack : List Activation) : Prop where
  bottom : stack.getLast? = some origin
  chain : stack.IsChain fun callee caller => caller.Calls callee

theorem stacks_singleton (origin : Activation) : origin.Stacks [origin] :=
  ⟨rfl, .singleton origin⟩

theorem Stacks.push (h : origin.Stacks (caller :: stack)) (hcall : caller.Calls callee) :
    origin.Stacks (callee :: caller :: stack) :=
  ⟨h.bottom, .cons_cons hcall h.chain⟩

/-- The calls on a stack get lower from the bottom to the top. -/
theorem Stacks.height_add_le (h : origin.Stacks (caller :: stack)) :
    caller.height + stack.length ≤ origin.height := by
  induction stack generalizing caller with
  | nil =>
    obtain rfl := Option.some.inj h.bottom
    exact Nat.le_refl _
  | cons next stack ih =>
    obtain ⟨hcall, hchain⟩ := List.isChain_cons_cons.1 h.chain
    have hlower := hcall.height_lt
    have hrest := ih ⟨h.bottom, hchain⟩
    rw [List.length_cons]
    omega

theorem Stacks.length_le (h : origin.Stacks stack) : stack.length ≤ origin.height := by
  cases stack with
  | nil => exact Nat.zero_le _
  | cons caller stack =>
    have hle := h.height_add_le
    have hpos := caller.height_pos
    rw [List.length_cons]
    omega

end Activation

end Grimoire
