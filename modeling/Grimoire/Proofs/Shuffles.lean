import Grimoire.Proofs.HigherOrder
import Grimoire.Proofs.InPlace
import Grimoire.Proofs.Streams

/-!
# Shuffles and samples

Two statements and two library functions put the elements of an array in a random order. All of them
run the same shuffle, so from the same elements and the same place in the random stream they come to
the same permutation and leave the stream at the same place, whatever becomes of the permutation. A
sample is what comes first in it.
-/

namespace Grimoire

/-- A fresh sequence of given elements has been dealt out and the random stream has been left at a
given place. What was stored before is as it was. -/
structure Deals (r : Resources) (items : List Value) (x : Xorshift)
    (out : Except Fault Value × Resources) : Prop where
  value : out.1 = .ok (.sequence r.store.sequences.size)
  fresh : ¬ r.store.Has (.sequence r.store.sequences.size)
  items : out.2.store.items r.store.sequences.size = items
  untouched : r.store.Extends out.2.store
  stream : out.2.random = x

theorem deals_newSequence (r : Resources) (items : List Value) (x : Xorshift) :
    Deals r items x (.ok (r.store.newSequence items).1,
      { r with store := (r.store.newSequence items).2, random := x }) where
  value := rfl
  fresh := @Store.not_has_newSequence r.store items
  items := Store.contents_newSequence r.store items
  untouched := Store.extends_newSequence r.store items
  stream := rfl

/-- An array that is edited has the new elements, provided that an empty one stays empty: a cell
that is not there reads as an empty array. -/
theorem Store.items_setItems_of_perm {s : Store} {cell : Nat} {items : List Value}
    (h : items.Perm (s.items cell)) : (s.setItems cell items).items cell = items := by
  by_cases hcell : cell < s.sequences.size
  · simp [setItems, Store.items, hcell]
  · have hnone : s.items cell = [] := by simp [Store.items, hcell]
    rw [hnone] at h
    simp [setItems, Store.items, hcell, h.eq_nil]

/-! ## Statements -/

namespace Run

variable {σ : Type} {m m₁ m₂ : Machine σ} {line : Text} {g : Groups} {cell : Nat} {v : Value}

/-- The elements are those that the array has before the number of them is evaluated. -/
theorem run_drawn (hitems : (evaluate (g.value 1)).run.run m = (.ok (.sequence cell), m₁))
    (hcount : (evaluate (g.value 2)).run.run m₁ = (.ok v, m₂)) :
    (evaluate (Computation.value .drawFrom g)).run.run m =
      (newSequence ((m₂.stream.shuffle (m₁.store.items cell)).1.take
        (m₂.store.toInt v).toNat)).run.run
        (m₂.withStream (m₂.stream.shuffle (m₁.store.items cell)).2) := by
  rw [Computation.value, Computation.drawn, run_items_bind hitems, run_integer_bind hcount]
  rfl

/-- Drawing moves the stream and nothing else. -/
theorem run_draw {α : Type} (take : Xorshift → α × Xorshift) (m : Machine σ) :
    (evaluate (Work.draw take : Eval α)).run.run m =
      (.ok (take m.stream).1, m.withStream (take m.stream).2) := rfl

theorem run_stirred (hopen : m.scope.guards (g.text 1) = false)
    (hitems : (evaluate (g.value 1)).run.run m = (.ok (.sequence cell), m₁)) :
    (evaluate ((Form.deed .stir).effects g)).run.run m =
      (.ok [.setItems cell (m₁.stream.shuffle (m₁.store.items cell)).1],
        m₁.withStream (m₁.stream.shuffle (m₁.store.items cell)).2) := by
  show (evaluate (Deed.editItems "Stir" g fun items =>
    Work.draw (Xorshift.shuffle items))).run.run m = _
  apply run_editItems hopen hitems
  exact run_draw (Xorshift.shuffle (m₁.store.items cell)) m₁

variable [Host σ]

/-- A statement that draws from an array binds a fresh one to its name. -/
theorem run_statement_drawFrom (hform : Form.find? line = some (.computation .drawFrom, g))
    (hitems : (evaluate (g.value 1)).run.run m = (.ok (.sequence cell), m₁))
    (hcount : (evaluate (g.value 2)).run.run m₁ = (.ok v, m₂)) :
    ∃ drawn m', Deals m₂.resources ((m₂.stream.shuffle (m₁.store.items cell)).1.take
        (m₂.store.toInt v).toNat) (m₂.stream.shuffle (m₁.store.items cell)).2
        (.ok drawn, m'.resources) ∧ m'.scope = m.scope ∧
      (statement line).run.run m = (bindName (g.text 3) drawn).run.run m' := by
  have hbinds := binds_of_computation (Form.isIdle_of_find? (by decide) (by decide) hform) hform
    (run_drawn hitems hcount)
  exact ⟨_, _, deals_newSequence m₂.resources _ _, hbinds.succeeds _ _ rfl⟩

/-- A statement that stirs an array puts its elements in another order where they are. -/
theorem run_statement_stir (hform : Form.find? line = some (.deed .stir, g))
    (hopen : m.scope.guards (g.text 1) = false)
    (hitems : (evaluate (g.value 1)).run.run m = (.ok (.sequence cell), m₁)) :
    (statement line).run.run m = (.ok (),
      (m₁.withStore (m₁.store.setItems cell (m₁.stream.shuffle (m₁.store.items cell)).1)).withStream
        (m₁.stream.shuffle (m₁.store.items cell)).2) := by
  rw [run_statement_of_effect (Form.isIdle_of_find? (by decide) (by decide) hform) hform
    (run_stirred hopen hitems)]
  rfl

/-- From the elements of an array and a place in the random stream there are one permutation and one
later place, a draw for each element but one further on, to which all shuffles and samples come; the
stream is looked at when the operands are evaluated. Every place that is drawn is one of the array.
A statement stirs the array where it is, unless the operand is a path from a sealed name; the
library deals the permutation out afresh, and statement and library alike deal out so many of its
first elements as are wanted and there. -/
theorem shuffles_and_samples_agree (xs : List Value) (x : Xorshift) :
    ∃ ys x', ys.Perm xs ∧ x' = Xorshift.step^[xs.length - 1] x ∧
      ys.toArray = (Xorshift.exchanges (xs.length - 1) x).foldl
        (fun items e => items.swapIfInBounds e.1 e.2) xs.toArray ∧
      (∀ e ∈ Xorshift.exchanges (xs.length - 1) x, e.1 < xs.length ∧ e.2 < xs.length) ∧
      (∀ (m m₁ : Machine σ) line g cell, Form.find? line = some (.deed .stir, g) →
        (evaluate (g.value 1)).run.run m = (.ok (.sequence cell), m₁) →
        m₁.store.items cell = xs → m₁.stream = x →
        (m.scope.guards (g.text 1) = true → (statement line).run.run m =
          (.error { fault := .sealedVariable (g.text 1).trim.pathRoot }, m)) ∧
        (m.scope.guards (g.text 1) = false → (statement line).run.run m =
            (.ok (), (m₁.withStore (m₁.store.setItems cell ys)).withStream x') ∧
          (m₁.store.setItems cell ys).items cell = ys)) ∧
      (∀ (r : Resources) cell, r.store.items cell = xs → r.random = x →
        Deals r ys x' ((Library.random.call "shuffle".toList [.sequence cell]).run.run r)) ∧
      ∀ k : Int,
        (∀ (m m₁ m₂ : Machine σ) line g cell v,
          Form.find? line = some (.computation .drawFrom, g) →
          (evaluate (g.value 1)).run.run m = (.ok (.sequence cell), m₁) →
          (evaluate (g.value 2)).run.run m₁ = (.ok v, m₂) →
          m₁.store.items cell = xs → m₂.stream = x → m₂.store.toInt v = k →
          ∃ drawn m', Deals m₂.resources (ys.take (min (max k 0).toNat xs.length)) x'
              (.ok drawn, m'.resources) ∧ m'.scope = m.scope ∧
            (statement line).run.run m = (bindName (g.text 3) drawn).run.run m') ∧
        (∀ (r : Resources) cell v, r.store.items cell = xs → r.random = x →
          r.store.toInt v = k →
          Deals r (ys.take (min (max k 0).toNat xs.length)) x'
            ((Library.random.call "sample".toList [.sequence cell, v]).run.run r)) := by
  have hperm := x.shuffle_perm xs
  -- an index below zero or beyond the end takes no more than there is
  have htake : ∀ k : Int, (x.shuffle xs).1.take (min (max k 0).toNat xs.length) =
      (x.shuffle xs).1.take k.toNat := by
    intro k
    rw [← hperm.length_eq, ← List.take_eq_take_min]
    congr 1
    omega
  refine ⟨(x.shuffle xs).1, (x.shuffle xs).2, hperm, x.shuffle_snd xs,
    Xorshift.shuffleFrom_fst (xs.length - 1) xs.toArray x, ?_, ?_, ?_, ?_⟩
  · intro e he
    have hle := Xorshift.le_of_mem_exchanges he
    -- there is an exchange, so there are two elements at least
    have hsome := List.length_pos_of_mem he
    rw [Xorshift.length_exchanges] at hsome
    omega
  · rintro m m₁ line g cell hform hitems rfl rfl
    constructor
    · intro hguarded
      exact run_statement_of_guarded (e := g.value 1) rfl
        (Form.isIdle_of_find? (by decide) (by decide) hform) hform hguarded
    · intro hopen
      exact ⟨run_statement_stir hform hopen hitems, Store.items_setItems_of_perm hperm⟩
  · rintro r cell rfl rfl
    exact deals_newSequence r _ _
  · intro k
    rw [htake k]
    constructor
    · rintro m m₁ m₂ line g cell v hform hitems hcount rfl rfl rfl
      exact run_statement_drawFrom hform hitems hcount
    · rintro r cell v rfl rfl rfl
      exact deals_newSequence r _ _

/-- A machine on which a name is bound to an array. -/
def threeNumbers : Machine Transcript :=
  ((statement "xs is [1, 2, 3] ok".toList).run.run .unused).2

/-- A line that stirs it. -/
def stirring : Text := "Stir xs ok".toList

/-- The place of the operand in that line. -/
def stirringGroups : Groups :=
  ⟨stirring, [(1, ⟨5, 8⟩)]⟩

/-- A line that draws more elements than it has. -/
def dealing : Text := "DrawFrom xs count 7 into hand ok".toList

/-- The places of the operands in that line. -/
def dealingGroups : Groups :=
  ⟨dealing, [(3, ⟨25, 29⟩), (2, ⟨18, 19⟩), (1, ⟨9, 11⟩)]⟩

theorem shuffles_and_samples_agree_threeNumbers :
    ∃ ys : List Value, ys.Perm [.number 1, .number 2, .number 3] ∧
      ((statement stirring).run.run threeNumbers).2.store.items 0 = ys ∧
      ((statement dealing).run.run threeNumbers).2.store.items 1 = ys.take 3 ∧
      ((Library.random.call "shuffle".toList [.sequence 0]).run.run
        threeNumbers.resources).2.store.items 1 = ys ∧
      ((Library.random.call "sample".toList [.sequence 0, .number 2]).run.run
        threeNumbers.resources).2.store.items 1 = ys.take 2 := by
  have hitems : threeNumbers.store.items 0 = [.number 1, .number 2, .number 3] := by
    decide +kernel
  have hsize : threeNumbers.resources.store.sequences.size = 1 := by decide +kernel
  obtain ⟨ys, x', hperm, -, -, -, hstir, hshuffle, hsamples⟩ :=
    shuffles_and_samples_agree (σ := Transcript) [.number 1, .number 2, .number 3]
      threeNumbers.stream
  refine ⟨ys, hperm, ?_, ?_, ?_, ?_⟩
  · have hvalue : ((evaluate (stirringGroups.value 1)).run.run threeNumbers).1 =
        .ok (.sequence 0) := by decide +kernel
    obtain ⟨hrun, hleft⟩ := (hstir threeNumbers _ stirring stirringGroups 0 (by decide +kernel)
      (Prod.ext hvalue rfl) (by decide +kernel) (by decide +kernel)).2 (by decide +kernel)
    rw [hrun]
    exact hleft
  · have hvalue : ((evaluate (dealingGroups.value 1)).run.run threeNumbers).1 =
        .ok (.sequence 0) := by decide +kernel
    have hcount : ((evaluate (dealingGroups.value 2)).run.run
        ((evaluate (dealingGroups.value 1)).run.run threeNumbers).2).1 = .ok (.number 7) := by
      decide +kernel
    obtain ⟨drawn, m', hdeals, hscope, hrun⟩ := (hsamples 7).1 threeNumbers _ _ dealing
      dealingGroups 0 (.number 7) (by decide +kernel) (Prod.ext hvalue rfl) (Prod.ext hcount rfl)
      (by decide +kernel) (by decide +kernel) (by decide +kernel)
    have hdealt := hdeals.items
    rw [show Array.size _ = 1 by decide +kernel] at hdealt
    rw [hrun, run_bindName_of_open (by rw [hscope]; decide +kernel)]
    exact hdealt
  · have hdealt := (hshuffle threeNumbers.resources 0 hitems rfl).items
    rwa [hsize] at hdealt
  · have hdealt :=
      ((hsamples 2).2 threeNumbers.resources 0 (.number 2) hitems rfl (by decide +kernel)).items
    rwa [hsize] at hdealt

end Run

end Grimoire
