import Grimoire.Proofs.Shuffles
import Grimoire.Proofs.Tolls.Programs

/-!
# The account of the random stream

An operation of chance rules on its evaluated arguments: either it is refused and takes nothing, or
it is granted and takes the draws that the arguments decide, one or, for an array that is shuffled,
one for each element but the first. Nothing else takes draws, and only a reset and the function that
says so put in a seed. So at any time the stream of a machine is the seed put in last, stepped as
often as the account of what has run counts draws since.
-/

namespace Grimoire

variable {σ : Type} [Host σ]

/-- How statements of chance rule once their operands have been evaluated, which leads from `m` to
another machine. -/
inductive Form.Rules (g : Groups) (m : Machine σ) : Form → Machine σ → Ruling → Prop
  | choose {m₁ : Machine σ} {values : List Value}
      (hvalues : (Run.evaluate (Eval.values (g.text 1))).run.run m = (.ok values, m₁)) :
      Rules g m (.computation .choose) m₁ (.onPool .noOptions values)
  | flip {m₁ : Machine σ} {v : Value}
      (hvalue : (Run.evaluate (g.value 1)).run.run m = (.ok v, m₁)) :
      Rules g m (.computation .flip) m₁ (.onProbability .flipProbability (m₁.store.toNumber v))
  | weightedDraw {m₁ m₂ : Machine σ} {v w : Value}
      (hitems : (Run.evaluate (g.value 1)).run.run m = (.ok v, m₁))
      (hweights : (Run.evaluate (g.value 2)).run.run m₁ = (.ok w, m₂)) :
      Rules g m (.computation .weightedDraw) m₂ (.onWeights m₂.store v w)
  | drawFloat {m₁ m₂ : Machine σ} {v w : Value}
      (hfirst : (Run.evaluate (g.value 1)).run.run m = (.ok v, m₁))
      (hlast : (Run.evaluate (g.value 2)).run.run m₁ = (.ok w, m₂)) :
      Rules g m (.computation .drawFloat) m₂ (.granted 1)
  | drawFrom {m₁ m₂ : Machine σ} {cell : Nat} {v : Value}
      (hitems : (Run.evaluate (g.value 1)).run.run m = (.ok (.sequence cell), m₁))
      (hcount : (Run.evaluate (g.value 2)).run.run m₁ = (.ok v, m₂)) :
      Rules g m (.computation .drawFrom) m₂ (.granted ((m₁.store.items cell).length - 1))
  /-- How many elements are wanted is not evaluated if there is no array. -/
  | drawFromNone {m₁ : Machine σ} {v : Value} (hv : ∀ cell, v ≠ .sequence cell)
      (hitems : (Run.evaluate (g.value 1)).run.run m = (.ok v, m₁)) :
      Rules g m (.computation .drawFrom) m₁ (.onShuffle "DrawFrom" m₁.store v)
  | stir {m₁ : Machine σ} {v : Value} (hopen : m.scope.guards (g.text 1) = false)
      (hitems : (Run.evaluate (g.value 1)).run.run m = (.ok v, m₁)) :
      Rules g m (.deed .stir) m₁ (.onShuffle "Stir" m₁.store v)

/-- What a statement has come to is what is ruled on a machine: it has failed and left the machine
as it was, or it has made so many draws. -/
def Ruling.Decides (m : Machine σ) (out : Except Failure Unit × Machine σ) : Ruling → Prop
  | wrongType fault => out = (.error { fault := .wrongType fault }, m)
  | outOfRange fault => out = (.error { fault := .outOfRange fault }, m)
  | granted draws => out.2.stream = Xorshift.step^[draws] m.stream

namespace Run

variable {m m₁ : Machine σ} {line : Text} {g : Groups} {ruling : Ruling}

omit [Host σ] in
theorem stream_bindName (name : Text) (v : Value) (m : Machine σ) :
    ((bindName name v).run.run m).2.stream = m.stream := by
  cases hname : m.scope.isSealed name with
  | true => rw [run_bindName_of_isSealed hname]
  | false =>
    rw [run_bindName_of_open hname]
    rfl

/-- What is left of a computation after its operands decides about the statement. -/
theorem decides_of_heeds {c : Computation} {rest : Eval Value}
    (hform : Form.find? line = some (.computation c, g)) (hassign : c ≠ .assign)
    (hrun : (evaluate (c.value g)).run.run m = (evaluate rest).run.run m₁)
    (hheeds : Work.Heeds m₁.resources (rest.run m₁.scope) ruling) :
    ruling.Decides m₁ ((statement line).run.run m) := by
  have hidle : line.isIdle = false :=
    Form.isIdle_of_find? (by simp) (by simpa using hassign) hform
  have hbinds := binds_of_computation hidle hform hrun
  cases ruling with
  | wrongType fault | outOfRange fault =>
    refine (hbinds.fails _ _ ?_).2
    rw [run_evaluate, show (rest.run m₁.scope).run.run m₁.resources = _ from hheeds]
    rfl
  | granted draws =>
    obtain ⟨v, r, hok, hrandom⟩ := hheeds
    rw [Ruling.Decides, (hbinds.succeeds _ _ (run_evaluate_of_ok hok)).2, stream_bindName]
    exact hrandom

/-- A statement of chance does what it rules on its operands. -/
theorem decides_of_rules {form : Form} (hform : Form.find? line = some (form, g))
    (hrules : form.Rules g m m₁ ruling) : ruling.Decides m₁ ((statement line).run.run m) := by
  cases hrules with
  | choose hvalues =>
    exact decides_of_heeds hform (by decide) (run_evaluate_bind_of_ok hvalues _)
      (Work.heeds_pick .noOptions _)
  | @flip _ v hvalue =>
    have hrun := run_evaluate_bind_of_ok hvalue fun v => (do
      let p ← Work.toNumber v
      if 0 ≤ p ∧ p ≤ 1 then return .boolean ((← Work.draw Xorshift.nextUnit) < p)
      else Work.failRange (.flipProbability p) : Eval Value)
    rw [← bind_assoc] at hrun
    exact decides_of_heeds hform (by decide) hrun (Computation.heeds_flip v _ _)
  | @weightedDraw m' _ v w hitems hweights =>
    have hrun : (evaluate (Computation.value .weightedDraw g)).run.run m = _ :=
      (run_evaluate_bind_of_ok hitems _).trans (run_evaluate_bind_of_ok hweights _)
    exact decides_of_heeds hform (by decide) hrun (Computation.heeds_weigh v w _ _)
  | @drawFloat m' _ v w hfirst hlast =>
    have ha : (evaluate (g.number 1)).run.run m = (.ok (m'.store.toNumber v), m') :=
      run_evaluate_bind_of_ok hfirst _
    have hb : (evaluate (g.number 2)).run.run m' = (.ok (m₁.store.toNumber w), m₁) :=
      run_evaluate_bind_of_ok hlast _
    have hrun : (evaluate (Computation.value .drawFloat g)).run.run m = _ :=
      (run_evaluate_bind_of_ok ha _).trans (run_evaluate_bind_of_ok hb _)
    exact decides_of_heeds hform (by decide) hrun ⟨_, _, rfl, rfl⟩
  | @drawFrom m' _ cell v hitems hcount =>
    obtain ⟨drawn, m'', hdeals, -, hrun⟩ := run_statement_drawFrom hform hitems hcount
    rw [Ruling.Decides, hrun, stream_bindName]
    exact hdeals.stream.trans (Xorshift.shuffle_snd _ _)
  | @drawFromNone _ v hv hitems =>
    have hrun := run_evaluate_bind_of_ok hitems fun v =>
      Eval.itemsOf "DrawFrom" v >>= fun items => do
        let count := (← g.integer 2).toNat
        Work.newSequence ((← Work.draw (Xorshift.shuffle items)).take count)
    rw [← bind_assoc] at hrun
    refine decides_of_heeds hform (by decide) hrun ?_
    cases v with
    | sequence cell => exact absurd rfl (hv cell)
    | _ => rfl
  | @stir _ v hopen hitems =>
    cases v with
    | sequence cell =>
      rw [run_statement_stir hform hopen hitems]
      exact Xorshift.shuffle_snd (m₁.store.items cell) m₁.stream
    | _ =>
      have heffects : (evaluate ((Form.deed .stir).effects g)).run.run m = _ :=
        (run_refuseSealed_bind _ _ m).trans ((if_neg (by simp [hopen])).trans
          (run_evaluate_bind_of_ok hitems _))
      rw [run_statement (Form.isIdle_of_find? (by decide) (by decide) hform) hform, heffects]
      rfl

end Run

namespace Machine

/-- The functions of chance that draw do what they rule on their arguments, when there are so many
arguments as they take: if they refuse them, with a type or range fault, nothing has changed, and
otherwise they have made so many draws. One function puts in a seed and gives it as its result. A
call of any standard library takes what is due for it, and nothing is due outside the library of
chance. In the same way statements of chance do what they rule on the values of their operands. On
machines with standard libraries only, which are all that come of calls on a fresh one, every
statement takes what is due for its operands and then for the draws it makes itself or the library
function or shapes it runs, and a part of a program takes what is due for what it comes across, also
if it fails. So whatever calls are made, the random stream is the seed put in last, stepped as often
as draws have been counted since. -/
theorem stream_is_accounted_for :
    (∀ name rule f args (r : Resources), Library.rulings.lookup name = some rule →
      Library.random.function? name = some f → f.arity.accepts args.length = true →
      Work.Heeds r (Library.random.call name args) (rule args r.store)) ∧
    (∀ v (r : Resources), (Library.random.call "seed".toList [v]).run.run r =
      (.ok (.number (Number.ofNat (Xorshift.seedOfNumber (r.store.toNumber v)).toNat)),
        { r with random := ⟨Xorshift.seedOfNumber (r.store.toNumber v)⟩ })) ∧
    (∀ library ∈ Library.standard, ∀ name args (r : Resources),
      ((library.call name args).run.run r).2.random =
        Toll.settle (library.due name args r) r.random ∧
      (library.path ≠ Library.random.path → library.due name args r = [])) ∧
    (∀ (m m₁ : Machine σ) line form g ruling, Form.find? line = some (form, g) →
      form.Rules g m m₁ ruling → ruling.Decides m₁ ((Run.statement line).run.run m)) ∧
    (∀ m : Machine σ, m.Standard → ∀ line,
      ((Run.statement line).run.run m).2.stream =
        Toll.settle (Tariff.statement line m.scope m.resources) m.stream) ∧
    (∀ m : Machine σ, m.Standard → ∀ nodes depth,
      ((Program.runNodes depth nodes).run.run m).2.Standard ∧
      ((Program.runNodes depth nodes).run.run m).2.stream =
        Toll.settle (Levy.nodes depth nodes m) m.stream) ∧
    ∀ config clock (host : σ) calls,
      (afterCalls config clock host calls).Standard ∧
      (afterCalls config clock host calls).stream =
        Xorshift.step^[Toll.drawsSince (Levy.calls calls (fresh config .standard clock host))]
          ((Toll.lastSeed? (Levy.calls calls (fresh config .standard clock host))).elim
            ⟨config.seed⟩ Xorshift.mk) := by
  refine ⟨?_, ?_, ?_, ?_, ?_, ?_, ?_⟩
  · intro name rule f args r hrule hf harity
    exact Library.heeds_call hrule hf harity
  · intro v r
    rfl
  · intro library hlibrary name args r
    exact ⟨Library.pays_call args hlibrary name r, fun hpath => Library.due_of_path_ne hpath⟩
  · intro m m₁ line form g ruling hform hrules
    exact Run.decides_of_rules hform hrules
  · intro m hm line
    exact (Run.pays_statement line m hm).2
  · intro m hm nodes depth
    exact Program.pays_runNodes nodes depth m hm
  · intro config clock host calls
    obtain ⟨hstandard, hstream⟩ := (standard_fresh config clock host).calls calls
    refine ⟨hstandard, hstream.trans ?_⟩
    rw [Toll.settle_eq_iterate]
    rfl

/-- A source that puts in a seed and shuffles three elements before it fails. -/
def shuffling : Text :=
  "Summon \"std/random\" as dice ok\nseed is invoke dice.seed with 7 ok
hand is invoke dice.shuffle with [1, 2, 3] ok\nFlip with p 2 into coin ok".toList

/-- A line with a probability that is none. -/
def flipping : Text := "Flip with p 2 into coin ok".toList

/-- The places of the operands in that line. -/
def flippingGroups : Groups :=
  ⟨flipping, [(2, ⟨19, 23⟩), (1, ⟨12, 13⟩)]⟩

theorem stream_is_accounted_for_shuffling :
    (Library.random.call "bernoulli".toList [.number 2]).run.run unused.resources =
      (.error (.outOfRange (.bernoulliProbability 2)), unused.resources) ∧
    (Run.statement flipping).run.run unused =
      (.error { fault := .outOfRange (.flipProbability 2) },
        ((Run.evaluate (flippingGroups.value 1)).run.run unused).2) ∧
    (afterCalls {} default ({} : Transcript) [.interpret shuffling]).stream =
      Xorshift.step^[2] ⟨7⟩ := by
  obtain ⟨hlibrary, -, -, hstatement, -, -, hcalls⟩ := stream_is_accounted_for (σ := Transcript)
  have hruling : ∀ refusal, Ruling.onProbability refusal 2 = .outOfRange (refusal 2) := by
    intro refusal
    exact if_neg (by decide +kernel)
  refine ⟨?_, ?_, ?_⟩
  · have hheeds := hlibrary "bernoulli".toList _ _ [.number 2] unused.resources rfl rfl rfl
    have hp : unused.resources.store.toNumber (Library.argument [.number 2] 0) = 2 := by
      decide +kernel
    rwa [hp, hruling] at hheeds
  · have hvalue : ((Run.evaluate (flippingGroups.value 1)).run.run unused).1 =
        .ok (.number 2) := by decide +kernel
    have hform : Form.find? flipping = some (.computation .flip, flippingGroups) := by
      decide +kernel
    have hp : ((Run.evaluate (flippingGroups.value 1)).run.run unused).2.store.toNumber
        (.number 2) = 2 := by decide +kernel
    have hdecides :=
      hstatement unused _ flipping _ flippingGroups _ hform (.flip (Prod.ext hvalue rfl))
    rwa [hp, hruling] at hdecides
  · obtain ⟨-, hstream⟩ := hcalls {} default {} [.interpret shuffling]
    have htolls : Levy.calls [.interpret shuffling] (fresh {} .standard default ({} : Transcript)) =
        [.seed Xorshift.defaultSeed, .seed 7, .draws 2] := by decide +kernel
    rw [hstream, htolls]
    rfl

end Machine

end Grimoire
