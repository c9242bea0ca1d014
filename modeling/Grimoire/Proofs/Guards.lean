import Grimoire.Proofs.Frames
import Grimoire.Proofs.Grammar
import Grimoire.Proofs.Refusals
import Grimoire.Proofs.Spared
import Grimoire.Proofs.Takings

/-!
# What guards the contents of sealed names

A statement comes to a container that it edits in one of two ways. Either a name is bound to the
container, and then the name may not be sealed; or the container is what an operand denotes, and
then the operand may not be a path from a sealed name. A path leads only to what its root reaches.
So if no other name reaches what a sealed name reaches, a line leaves all of it as it was, except
for the container that an operand denotes which is no path: such an operand nothing guards.
-/

namespace Grimoire

open Relation

/-! ## Paths -/

namespace Text

variable {s : Text}

/-- Paths consist of characters that mean nothing but themselves. -/
theorem isPlain_of_isPath (h : s.isPath = true) {c : Char} (hc : c ∈ s) : isPlain c = true := by
  rcases mem_of_isPath h hc with hword | rfl
  · exact isPlain_of_isWord hword
  · decide

theorem tomeBody?_of_isPath (h : s.isPath = true) : s.tomeBody? = none := by
  have hno : ∀ t, t ∉ tomePattern.ways (.start s) := by
    intro t ht
    obtain ⟨taken, noted, htakes, htook⟩ := Pattern.exists_takes_of_ways (Pattern.within_start s) ht
    obtain ⟨_, _, _, _, rfl, -, -, _, brace, _, _, rfl, -, -, hbrace, -⟩ := htakes
    obtain rfl : brace = ['\x7b'] := eq_of_map_foldCase_eq (by decide) hbrace
    have hmem : '\x7b' ∈ s := by
      rw [show s = _ from htook.rest]
      simp
    exact absurd (isPlain_of_isPath h hmem) (by decide)
  rw [tomeBody?, Pattern.matchStart?_eq_none hno]
  rfl

theorem invoke_of_isPath (h : s.isPath = true) : invokePattern.match? s = none := by
  apply Pattern.match?_eq_none
  intro t ht
  obtain ⟨taken, noted, htakes, htook⟩ := Pattern.exists_takes_of_ways (Pattern.within_start s) ht
  obtain ⟨_, _, _, _, rfl, -, -, gap, _, _, _, rfl, -, ⟨⟨hlen, hgap⟩, -⟩, -⟩ := htakes
  obtain ⟨c, hc⟩ := List.exists_mem_of_length_pos hlen
  have hmem : c ∈ s := by
    rw [show s = _ from htook.rest]
    simp [hc]
  have hblank : isBlank c = true := hgap c hc
  rw [isBlank_of_isPlain (isPlain_of_isPath h hmem)] at hblank
  cases hblank

/-- The root of a path is an identifier. -/
theorem isIdentifier_pathRoot (h : s.isPath = true) : s.pathRoot.isIdentifier = true := by
  obtain ⟨rest, hsplit, -⟩ := exists_splitOn_eq '.' s
  rw [isPath, hsplit, List.all_cons, Bool.and_eq_true] at h
  exact h.1

/-- A path does not begin with a digit. -/
theorem isNumeral_of_isPath (h : s.isPath = true) : s.isNumeral = false := by
  have hroot := isIdentifier_pathRoot h
  rw [Bool.eq_false_iff]
  intro hnumeral
  obtain ⟨sign, d, body, rfl, hsign, hd, -⟩ := exists_of_isNumeral hnumeral
  rcases hsign with rfl | rfl
  · have hpoint : d ≠ '.' := by
      rintro rfl
      exact absurd hd (by decide)
    rw [List.nil_append, pathRoot, List.takeWhile_cons, if_pos (decide_eq_true hpoint)] at hroot
    rw [isDigit_of_isIdentifier_cons hroot] at hd
    cases hd
  · rw [List.singleton_append, pathRoot, List.takeWhile_cons, if_pos (by decide)] at hroot
    exact absurd (isWord_of_isIdentifier hroot List.mem_cons_self) (by decide)

end Text

/-- A path is read as a path, unless it is a word for a truth value. -/
theorem Layer.of_isPath {s : Text} (h : s.isPath = true) (htrue : s.isTrueWord = false)
    (hfalse : s.isFalseWord = false) : Layer.of s = ofPath s := by
  have hnumeral := Text.isNumeral_of_isPath h
  cases s with
  | nil => cases h
  | cons c rest =>
    have hplain := Text.isPlain_of_isPath h List.mem_cons_self
    have hne : ∀ d, isPlain d = false → c ≠ d := by
      rintro d hd rfl
      rw [hplain] at hd
      cases hd
    obtain ⟨htriple, hquoted⟩ :=
      Text.unquoted_of_head (hne '"' (by decide)) (hne '\'' (by decide)) rest
    have hbracket : Text.unwrap? '[' ']' (c :: rest) = none :=
      Text.unwrap?_of_ne (hne '[' (by decide)) rest
    simp only [of, htriple, hquoted, htrue, hfalse, hnumeral, ofContainer, hbracket,
      Text.tomeBody?_of_isPath h, ofCompound, Text.invoke_of_isPath h, h, Bool.false_eq_true,
      if_false, if_true]

namespace Store

variable {s : Store} {v : Value}

/-- What is under a key of a value and can hold something is an entry of the value. -/
theorem encloses_member {key : Text} (h : (s.member v key).isContainer = true) :
    s.Encloses v (s.member v key) := by
  cases v with
  | tome cell =>
    rw [member] at h ⊢
    cases hw : (s.entries cell).get? key with
    | none =>
      rw [hw] at h
      cases h
    | some w => exact Table.mem_values_of_get? hw
  | sequence cell | string text =>
    rw [member] at h
    split at h <;> cases h
  | _ => cases h

/-- Keys lead from a value to what it reaches. -/
theorem reaches_foldl_member {steps : List Text}
    (h : (steps.foldl s.member v).isContainer = true) :
    v.isContainer = true ∧ ReflTransGen s.Encloses v (steps.foldl s.member v) := by
  induction steps generalizing v with
  | nil => exact ⟨h, .refl⟩
  | cons key rest ih =>
    obtain ⟨hmember, hreach⟩ := ih h
    have hstep := encloses_member hmember
    exact ⟨hstep.has.1, hreach.head hstep⟩

end Store

namespace Eval

variable {α β : Type} {scope : Scope} {r r' : Resources}

/-- What has come of two computations one after the other has come of the second. -/
theorem exists_of_run_bind {e : Eval α} {f : α → Eval β} {b : β}
    (h : ((e >>= f).run scope).run.run r = (.ok b, r')) :
    ∃ a r₁, (e.run scope).run.run r = (.ok a, r₁) ∧
      ((f a).run scope).run.run r₁ = (.ok b, r') := by
  have hrun : ((e >>= f).run scope).run.run r = _ :=
    run_bind (e.run scope) (fun a => (f a).run scope) r
  rw [hrun] at h
  rcases hfirst : (e.run scope).run.run r with ⟨fault | a, r₁⟩
  · rw [hfirst] at h
    cases h
  · rw [hfirst] at h
    exact ⟨a, r₁, rfl, h⟩

/-- A path that denotes a container leads to it from its root. -/
theorem reaches_of_isPath {s : Text} (hpath : s.trim.isPath = true) {c : Value}
    (h : ((value s).run scope).run.run r = (.ok c, r')) (hc : c.isContainer = true) :
    ∃ v, scope.lookup? s.trim.pathRoot = some v ∧ ReflTransGen r.store.Encloses v c := by
  rw [value, Expr.ofText_eq_assemble] at h
  by_cases hword : s.trim.isTrueWord = true ∨ s.trim.isFalseWord = true
  · rw [Layer.of_truthWord hword] at h
    cases h
    cases hc
  · rw [not_or, Bool.not_eq_true, Bool.not_eq_true] at hword
    obtain ⟨steps, hsplit, -⟩ := Text.exists_splitOn_eq '.' s.trim
    rw [Layer.of_isPath hpath hword.1 hword.2, Layer.ofPath, hsplit] at h
    have hfollow : c = scope.follow r.store s.trim.pathRoot steps := by
      cases h
      rfl
    subst hfollow
    unfold Scope.follow at hc ⊢
    split at hc
    · next v hv =>
      rw [hv]
      exact ⟨v, rfl, (Store.reaches_foldl_member hc).2⟩
    · split at hc <;> cases hc

end Eval

/-! ## Operands that are edited in place -/

/-- The operand that a deed edits in place, and the evaluation that finds its value after the
operands before it. -/
def Deed.edited? : Deed → Groups → Option (Text × Eval Value)
  | stir, g | sort, g | reverse, g => some (g.text 1, g.value 1)
  | pluckKey, g => some (g.text 2, do
    let _ ← g.display 1
    g.value 2)
  | rebrand, g => some (g.text 3, do
    let _ ← g.display 1
    let _ ← g.display 2
    g.value 3)
  | meld, g => some (g.text 2, do
    let _ ← Deed.tomeCell "Meld" (← g.value 1)
    g.value 2)
  | _, _ => none

/-- The operand that a statement edits in place, and the evaluation that finds its value. -/
def Form.edited? : Form → Groups → Option (Text × Eval Value)
  | deed d, g => d.edited? g
  | computation _, _ => none

/-- How a statement comes to a container that it edits. -/
inductive Form.Edits (form : Form) (g : Groups) (scope : Scope) (r : Resources) (c : Value) : Prop
  | named (name : Text) (hopen : scope.isSealed name = false) (hname : scope.lookup? name = some c)
  | denoted {operand : Text} {e : Eval Value}
      (hedited : form.edited? g = some (operand, e))
      (hopen : operand.trim.isPath = true → scope.isSealed operand.trim.pathRoot = false)
      (hvalue : ((e.run scope).run.run r).1 = .ok c)

namespace Form

variable {form : Form} {g : Groups} {scope : Scope} {r : Resources} {effects : List Effect}

/-- A statement comes in one of these ways to every container that its effects edit. -/
def EditsAll (form : Form) (g : Groups) (scope : Scope) (r : Resources) (effects : List Effect) :
    Prop :=
  ∀ effect ∈ effects, ∀ c, effect.container? = some c → form.Edits g scope r c

theorem editsAll_nil : form.EditsAll g scope r [] :=
  fun _ h => absurd h List.not_mem_nil

/-- An effect that edits nothing comes to no container. -/
theorem EditsAll.cons_of_none {effect : Effect} (hnone : effect.container? = none)
    (h : form.EditsAll g scope r effects) : form.EditsAll g scope r (effect :: effects) := by
  intro other hother c hc
  rcases List.mem_cons.1 hother with rfl | hrest
  · rw [hnone] at hc
    cases hc
  · exact h other hrest c hc

theorem EditsAll.cons {effect : Effect} {c : Value}
    (hcontainer : effect.container? = some c) (hedits : form.Edits g scope r c)
    (h : form.EditsAll g scope r effects) : form.EditsAll g scope r (effect :: effects) := by
  intro other hother d hd
  rcases List.mem_cons.1 hother with rfl | hrest
  · rw [hcontainer] at hd
    exact Option.some.inj hd ▸ hedits
  · exact h other hrest d hd

end Form

namespace Deed

open Eval

variable {g : Groups} {scope : Scope} {r r' : Resources} {user : String} {effects : List Effect}

/-! ### Checks -/

/-- What is not refused is no path from a sealed name. -/
theorem open_of_run_refuseSealed {operand : Text} {u : Unit}
    (h : ((refuseSealed operand).run scope).run.run r = (.ok u, r')) :
    (operand.trim.isPath = true → scope.isSealed operand.trim.pathRoot = false) ∧ r' = r := by
  have hcheck : ((if operand.trim.isPath && scope.isSealed operand.trim.pathRoot
      then Eval.fail (.sealedVariable operand.trim.pathRoot) else pure () : Eval Unit).run
        scope).run.run r = (.ok u, r') := h
  split at hcheck
  · cases hcheck
  · next hno =>
    cases hcheck
    exact ⟨fun hpath => by simpa [hpath] using hno, rfl⟩

theorem eq_of_run_arrayCell {v : Value} {cell : Nat}
    (h : ((arrayCell user v).run scope).run.run r = (.ok cell, r')) :
    v = .sequence cell ∧ r' = r := by
  cases v <;> cases h
  exact ⟨rfl, rfl⟩

theorem eq_of_run_tomeCell {v : Value} {cell : Nat}
    (h : ((tomeCell user v).run scope).run.run r = (.ok cell, r')) : v = .tome cell ∧ r' = r := by
  cases v <;> cases h
  exact ⟨rfl, rfl⟩

/-- An array that is edited under its name has an open one. -/
theorem open_of_run_namedCell {name : Text} {cell : Nat}
    (h : ((namedCell user name).run scope).run.run r = (.ok cell, r')) :
    scope.isSealed name = false ∧ scope.lookup? name = some (.sequence cell) := by
  rw [namedCell] at h
  obtain ⟨names, r₁, hread, h⟩ := exists_of_run_bind h
  cases hread
  split at h
  · cases h
  · next hopen =>
    split at h
    · next other hlookup =>
      cases h
      exact ⟨Bool.eq_false_iff.2 hopen, hlookup⟩
    · cases h

/-! ### Deeds one by one -/

/-- An edit of the operand's array comes to what the operand denotes. -/
theorem editsAll_editItems {d : Deed} {edit : List Value → Eval (List Value)}
    (hedited : d.edited? g = some (g.text 1, g.value 1))
    (h : ((editItems user g edit).run scope).run.run r = (.ok effects, r')) :
    (Form.deed d).EditsAll g scope r effects := by
  obtain ⟨_, r₁, hrefuse, h⟩ := exists_of_run_bind h
  obtain ⟨v, r₂, hvalue, h⟩ := exists_of_run_bind h
  obtain ⟨cell, r₃, hcell, h⟩ := exists_of_run_bind h
  obtain ⟨s, r₄, -, h⟩ := exists_of_run_bind h
  obtain ⟨items, r₅, -, h⟩ := exists_of_run_bind h
  cases h
  obtain ⟨hopen, rfl⟩ := open_of_run_refuseSealed hrefuse
  obtain ⟨rfl, -⟩ := eq_of_run_arrayCell hcell
  exact .cons rfl (.denoted hedited hopen (congrArg Prod.fst hvalue)) Form.editsAll_nil

theorem editsAll_pathSet (h : ((pathSet g).run scope).run.run r = (.ok effects, r')) :
    (Form.deed .setPath).EditsAll g scope r effects := by
  obtain ⟨v, r₁, -, h⟩ := exists_of_run_bind h
  split at h <;> cases h <;> exact Form.editsAll_nil.cons_of_none rfl

theorem editsAll_boundInFront (h : ((boundInFront g).run scope).run.run r = (.ok effects, r')) :
    (Form.deed .bindFront).EditsAll g scope r effects := by
  obtain ⟨v, r₁, -, h⟩ := exists_of_run_bind h
  obtain ⟨cell, r₂, hcell, h⟩ := exists_of_run_bind h
  obtain ⟨_, r₃, -, h⟩ := exists_of_run_bind h
  obtain ⟨s, r₄, -, h⟩ := exists_of_run_bind h
  obtain ⟨hopen, hname⟩ := open_of_run_namedCell hcell
  cases h
  exact .cons rfl (.named _ hopen hname) Form.editsAll_nil

theorem editsAll_firstPlucked (h : ((firstPlucked g).run scope).run.run r = (.ok effects, r')) :
    (Form.deed .pluckFirst).EditsAll g scope r effects := by
  obtain ⟨cell, r₁, hcell, h⟩ := exists_of_run_bind h
  obtain ⟨s, r₂, -, h⟩ := exists_of_run_bind h
  obtain ⟨hopen, hname⟩ := open_of_run_namedCell hcell
  split at h
  · cases h
    exact Form.editsAll_nil.cons_of_none rfl
  · cases h
    exact .cons rfl (.named _ hopen hname) (Form.editsAll_nil.cons_of_none rfl)

theorem editsAll_flooded (h : ((flooded g).run scope).run.run r = (.ok effects, r')) :
    (Form.deed .flood).EditsAll g scope r effects := by
  obtain ⟨v, r₁, -, h⟩ := exists_of_run_bind h
  obtain ⟨cell, r₂, hcell, h⟩ := exists_of_run_bind h
  obtain ⟨_, r₃, -, h⟩ := exists_of_run_bind h
  obtain ⟨s, r₄, -, h⟩ := exists_of_run_bind h
  obtain ⟨hopen, hname⟩ := open_of_run_namedCell hcell
  cases h
  exact .cons rfl (.named _ hopen hname) Form.editsAll_nil

theorem editsAll_keyPlucked (h : ((keyPlucked g).run scope).run.run r = (.ok effects, r')) :
    (Form.deed .pluckKey).EditsAll g scope r effects := by
  obtain ⟨_, r₁, hrefuse, h⟩ := exists_of_run_bind h
  obtain ⟨key, r₂, hkey, h⟩ := exists_of_run_bind h
  obtain ⟨v, r₃, hvalue, h⟩ := exists_of_run_bind h
  obtain ⟨cell, r₄, hcell, h⟩ := exists_of_run_bind h
  obtain ⟨s, r₅, -, h⟩ := exists_of_run_bind h
  cases h
  obtain ⟨hopen, rfl⟩ := open_of_run_refuseSealed hrefuse
  obtain ⟨rfl, -⟩ := eq_of_run_tomeCell hcell
  refine .cons rfl (.denoted rfl hopen ?_) Form.editsAll_nil
  rw [Term.run_bind_of_ok hkey]
  exact congrArg Prod.fst hvalue

theorem editsAll_rebranded (h : ((rebranded g).run scope).run.run r = (.ok effects, r')) :
    (Form.deed .rebrand).EditsAll g scope r effects := by
  obtain ⟨_, r₁, hrefuse, h⟩ := exists_of_run_bind h
  obtain ⟨old, r₂, hold, h⟩ := exists_of_run_bind h
  obtain ⟨new, r₃, hnew, h⟩ := exists_of_run_bind h
  obtain ⟨v, r₄, hvalue, h⟩ := exists_of_run_bind h
  obtain ⟨cell, r₅, hcell, h⟩ := exists_of_run_bind h
  obtain ⟨s, r₆, -, h⟩ := exists_of_run_bind h
  cases h
  obtain ⟨hopen, rfl⟩ := open_of_run_refuseSealed hrefuse
  obtain ⟨rfl, -⟩ := eq_of_run_tomeCell hcell
  refine .cons rfl (.denoted rfl hopen ?_) Form.editsAll_nil
  rw [Term.run_bind_of_ok hold, Term.run_bind_of_ok hnew]
  exact congrArg Prod.fst hvalue

/-- A tome melded into itself is not edited. -/
theorem editsAll_melded (h : ((melded g).run scope).run.run r = (.ok effects, r')) :
    (Form.deed .meld).EditsAll g scope r effects := by
  obtain ⟨_, r₁, hrefuse, h⟩ := exists_of_run_bind h
  obtain ⟨v, r₂, hv, h⟩ := exists_of_run_bind h
  obtain ⟨source, r₃, hsource, h⟩ := exists_of_run_bind h
  obtain ⟨w, r₄, hvalue, h⟩ := exists_of_run_bind h
  obtain ⟨cell, r₅, hcell, hrest⟩ := exists_of_run_bind h
  obtain ⟨hopen, rfl⟩ := open_of_run_refuseSealed hrefuse
  obtain ⟨rfl, -⟩ := eq_of_run_tomeCell hcell
  split at hrest
  · cases hrest
    exact Form.editsAll_nil
  · obtain ⟨_, r₆, -, hrest⟩ := exists_of_run_bind hrest
    obtain ⟨s, r₇, -, hrest⟩ := exists_of_run_bind hrest
    cases hrest
    refine .cons rfl (.denoted rfl hopen ?_) Form.editsAll_nil
    rw [Term.run_bind_of_ok hv, Term.run_bind_of_ok hsource]
    exact congrArg Prod.fst hvalue

theorem editsAll_effects (d : Deed)
    (h : ((d.effects g).run scope).run.run r = (.ok effects, r')) :
    (Form.deed d).EditsAll g scope r effects := by
  cases d with
  | setPath => exact editsAll_pathSet h
  | sealName | reveal | scribe | imprint =>
    obtain ⟨v, r₁, -, h⟩ := exists_of_run_bind h
    cases h
    exact Form.editsAll_nil.cons_of_none rfl
  | summon =>
    cases h
    exact Form.editsAll_nil.cons_of_none rfl
  | stir | reverse =>
    rw [Deed.effects] at h
    exact editsAll_editItems rfl h
  | sort =>
    rw [Deed.effects, sorted] at h
    exact editsAll_editItems rfl h
  | bindFront => exact editsAll_boundInFront h
  | pluckFirst => exact editsAll_firstPlucked h
  | flood => exact editsAll_flooded h
  | pluckKey => exact editsAll_keyPlucked h
  | rebrand => exact editsAll_rebranded h
  | meld => exact editsAll_melded h

end Deed

/-- A statement comes to the containers that it edits by an open name or by its operand. -/
theorem Form.editsAll_effects {form : Form} {g : Groups} {scope : Scope} {r r' : Resources}
    {effects : List Effect} (h : ((form.effects g).run scope).run.run r = (.ok effects, r')) :
    form.EditsAll g scope r effects := by
  cases form with
  | computation c =>
    obtain ⟨v, r₁, -, h⟩ := Eval.exists_of_run_bind h
    cases h
    exact Form.editsAll_nil.cons_of_none rfl
  | deed d => exact d.editsAll_effects h

/-! ## What an operand leads to -/

/-- A computation that a discipline covers leaves resources that it covers too. -/
theorem Eval.Yields.after {α : Type} {D : Discipline} {scope : Scope} {r r' : Resources}
    {e : Eval α} {post : Store → α → Prop} (h : Eval.Yields D scope r e post)
    (hadmits : D.Admits scope r.store) {outcome : Except Fault α}
    (hrun : (e.run scope).run.run r = (outcome, r')) :
    r.Grows r' ∧ D.Admits scope r'.store := by
  have hout := h hadmits
  rw [hrun] at hout
  exact ⟨hout.grows, hadmits.mono hout.grows.store hout.sound⟩

namespace Deed

open Eval Groups

variable {g : Groups} {scope : Scope} {r : Resources}

/-- The operand that a deed edits in place is evaluated when more cells may have been added. -/
theorem exists_of_edited {d : Deed} {operand : Text} {e : Eval Value} {c : Value}
    (hedited : d.edited? g = some (operand, e))
    (hadmits : Discipline.acyclic.Admits scope r.store)
    (h : ((e.run scope).run.run r).1 = .ok c) :
    ∃ r₁ r₂, r.Grows r₁ ∧ ((Eval.value operand).run scope).run.run r₁ = (.ok c, r₂) := by
  obtain ⟨r', hrun⟩ : ∃ r', (e.run scope).run.run r = (.ok c, r') := ⟨_, Prod.ext h rfl⟩
  cases d <;> cases hedited
  case stir | sort | reverse => exact ⟨r, r', .refl r, hrun⟩
  case pluckKey =>
    obtain ⟨key, r₁, hkey, hvalue⟩ := exists_of_run_bind hrun
    exact ⟨r₁, r', (yields_display.after hadmits hkey).1, hvalue⟩
  case rebrand =>
    obtain ⟨old, r₁, hold, hrest⟩ := exists_of_run_bind hrun
    obtain ⟨new, r₂, hnew, hvalue⟩ := exists_of_run_bind hrest
    obtain ⟨hgrows₁, hadmits₁⟩ := yields_display.after hadmits hold
    exact ⟨r₂, r', hgrows₁.trans (yields_display.after hadmits₁ hnew).1, hvalue⟩
  case meld =>
    obtain ⟨v, r₁, hv, hrest⟩ := exists_of_run_bind hrun
    obtain ⟨source, r₂, hsource, hvalue⟩ := exists_of_run_bind hrest
    obtain ⟨-, rfl⟩ := eq_of_run_tomeCell hsource
    exact ⟨r₂, r', (yields_value.after hadmits hv).1, hvalue⟩

end Deed

namespace Scope

variable {scope : Scope} {name : Text}

/-- Outside of calls names are looked up among the global ones. -/
theorem lookup?_of_frames (h : scope.frames = []) (name : Text) :
    scope.lookup? name = scope.globals.get? name := by
  rw [lookup?, h]
  rfl

theorem has_of_lookup? {s : Store} {v : Value} (hframes : scope.frames = [])
    (hglobals : ∀ w ∈ scope.globals.values, s.Has w) (h : scope.lookup? name = some v) :
    s.Has v := by
  rw [lookup?_of_frames hframes] at h
  exact hglobals v (Table.mem_values_of_get? h)

end Scope

/-! ## Sealed names -/

namespace Machine

variable {σ : Type} {m : Machine σ} {name : Text} {v : Value}

/-- A sealed name is bound to a value, and no other name reaches a container that the value
reaches. -/
structure SealsOff (m : Machine σ) (name : Text) (v : Value) : Prop where
  sealed : m.scope.isSealed name = true
  bound : m.scope.globals.get? name = some v
  alone : ∀ other w c, other ≠ name → m.scope.globals.get? other = some w →
    c.isContainer = true → ReflTransGen m.store.Encloses v c → ¬ ReflTransGen m.store.Encloses w c

/-- The container that a line edits in place through an operand which is no path. No seal guards
it. -/
def unguarded? (m : Machine σ) (line : Text) : Option Value :=
  if line.isIdle then none
  else (Form.find? line).bind fun found => (found.1.edited? found.2).bind fun edited =>
    if edited.1.trim.isPath then none
    else ((edited.2.run m.scope).run.run m.resources).1.toOption

/-- A container that a value reaches and that a line does not come to unguarded. -/
structure Guarded (m : Machine σ) (line : Text) (v c : Value) : Prop where
  container : c.isContainer = true
  reached : ReflTransGen m.store.Encloses v c
  guarded : m.unguarded? line ≠ some c

/-- While cells are added, open names stay away from what a sealed name keeps to itself. -/
theorem SealsOff.avoids (h : m.SealsOff name v) (hm : m.Grounded) {line other : Text}
    (hopen : m.scope.isSealed other = false) {w : Value}
    (hw : m.scope.globals.get? other = some w) {r : Resources} (hgrows : m.resources.Grows r) :
    r.store.Avoids (m.Guarded line v) w := by
  intro c hreach hc
  have hne : other ≠ name := by
    rintro rfl
    rw [h.sealed] at hopen
    cases hopen
  have hold : ReflTransGen m.store.Encloses w c :=
    (hgrows.store.reaches_iff hm.sound (hm.admits.globals.get? hw)).1 hreach
  exact h.alone other w c hne hw hc.container hc.reached hold

/-- A line comes to no guarded container of a sealed name: not by an open name, and not by a path,
which leads only to what its root reaches. -/
theorem SealsOff.not_edits (h : m.SealsOff name v) (hm : m.Grounded)
    (hframes : m.scope.frames = []) {line : Text} {form : Form} {g : Groups}
    (hidle : line.isIdle = false) (hform : Form.find? line = some (form, g)) {c : Value}
    (hc : m.Guarded line v c) : ¬ form.Edits g m.scope m.resources c := by
  rintro (⟨other, hopen, hname⟩ | ⟨hedited, hopen, hvalue⟩)
  · rw [Scope.lookup?_of_frames hframes] at hname
    exact (h.avoids hm hopen hname (.refl _)).self hc
  · next operand e =>
    cases form with
    | computation _ => cases hedited
    | deed d =>
      cases hpath : operand.trim.isPath with
      | true =>
        obtain ⟨r₁, r₂, hgrows, hrun⟩ := Deed.exists_of_edited hedited hm.admits hvalue
        obtain ⟨w, hw, hled⟩ := Eval.reaches_of_isPath hpath hrun hc.container
        rw [Scope.lookup?_of_frames hframes] at hw
        exact h.avoids hm (hopen hpath) hw hgrows c hled hc
      | false =>
        apply hc.guarded
        rw [unguarded?, hidle, hform]
        simp only [Bool.false_eq_true, if_false, Option.bind_some, hedited, hpath, hvalue]
        rfl

variable [Host σ]

/-- The effects of a line spare the guarded containers of a sealed name. -/
theorem SealsOff.sparing_performAll (h : m.SealsOff name v) (hm : m.Grounded)
    (hframes : m.scope.frames = []) {line : Text} {form : Form} {g : Groups}
    (hidle : line.isIdle = false) (hform : Form.find? line = some (form, g))
    {effects : List Effect} {r : Resources}
    (hrun : ((form.effects g).run m.scope).run.run m.resources = (.ok effects, r)) :
    Run.Keeps (.sparing m.store (m.Guarded line v)) { m with resources := r }
      (Run.performAll effects) (fun _ _ => True) fun _ => True := by
  have hgrows : m.resources.Grows r := (form.yields_effects.after hm.admits hrun).1
  apply Run.sparing_performAll (Run.fits_of_evaluate (Run.run_evaluate_of_ok hrun)).1
  · intro effect heffect c hedited hc
    exact h.not_edits hm hframes hidle hform hc
      (Form.editsAll_effects hrun effect heffect c hedited)
  · intro other hopen w hw
    exact h.avoids hm hopen hw hgrows

/-- Whatever calls have been made on a fresh machine, if a sealed name is bound to a container, and
no other name reaches what it reaches, then after any line, whether it fails or not, the name is
still bound to the container, and every container that it reaches has the same elements or entries,
except the one that the line edits in place through an operand which is no path. -/
theorem sealed_containers_spared {config : Config} {clock : Clock} {host : σ} {calls : List Call}
    (hm : m = afterCalls config clock host calls) (h : m.SealsOff name v) (line : Text) :
    ((Run.statement line).run.run m).2.scope.globals.get? name = some v ∧
      ∀ c, ReflTransGen m.store.Encloses v c → m.unguarded? line ≠ some c →
        m.store.SameAt ((Run.statement line).run.run m).2.store c := by
  have hgrounded : m.Grounded := hm ▸ grounded_afterCalls config clock host calls
  have hframes : m.scope.frames = [] := hm ▸ (sinceReset_afterCalls config clock host calls).frames
  have hv : m.store.Has v := hgrounded.admits.globals.get? h.bound
  refine ⟨((Run.scope_statement line m).get?_of_isSealed h.sealed).trans h.bound, ?_⟩
  intro c hreach hline
  have hhas : m.store.Has c := hgrounded.sound.has_of_reflTransGen hv hreach
  rcases Run.form_cases line with hformless | ⟨form, g, hidle, hform⟩
  · rw [Run.run_statement_of_formless hformless]
    exact .refl _ c
  have hretains : m.Retains ((Run.evaluate (form.effects g)).run.run m).2 :=
    Run.retains_evaluate hgrounded.admits form.yields_effects
  rw [Run.run_statement hidle hform]
  rcases heval : (Run.evaluate (form.effects g)).run.run m with ⟨failure | effects, m₁⟩
  · -- a line whose operands fail has only added cells
    rw [heval] at hretains
    exact hretains.grows.store.sameAt hhas
  rw [heval] at hretains
  obtain ⟨r, hrun, rfl⟩ := Run.exists_of_run_evaluate heval
  have hextends : m.store.Extends r.store := hretains.grows.store
  cases hc : c.isContainer with
  | false => exact Store.sameAt_of_not_isContainer hc
  | true =>
    have hspares := h.sparing_performAll hgrounded hframes hidle hform hrun fun d hd =>
      have hdhas := hgrounded.sound.has_of_reflTransGen hv hd.reached
      ⟨hextends.has hdhas, hextends.sameAt hdhas⟩
    exact (hspares.holds c ⟨hc, hreach, hline⟩).2

/-- A machine on which a sealed name is bound to an array of two letters. -/
def sealedLetters : Machine Transcript :=
  afterCalls {} default {} [.execute "Seal xs is [\"b\", \"a\"] ok".toList]

theorem sealsOff_sealedLetters : sealedLetters.SealsOff "xs".toList (.sequence 0) := by
  have hglobals : sealedLetters.scope.globals.entries = [("xs".toList, .sequence 0)] := by
    decide +kernel
  refine ⟨by decide +kernel, ?_, ?_⟩
  · rw [Table.get?, hglobals]
    decide
  · intro other w c hne hw
    rw [Table.get?, hglobals, Table.lookup_cons_eq_ite, if_neg hne] at hw
    cases hw

/-- The name itself is refused, and the array keeps its order. -/
theorem sealed_containers_spared_sealedLetters :
    sealedLetters.SealsOff "xs".toList (.sequence 0) ∧
      ∀ c, ReflTransGen sealedLetters.store.Encloses (.sequence 0) c →
        sealedLetters.store.SameAt
          ((Run.statement "Reverse xs ok".toList).run.run sealedLetters).2.store c := by
  have hspared := sealed_containers_spared (m := sealedLetters) rfl sealsOff_sealedLetters
    "Reverse xs ok".toList
  have hguarded : sealedLetters.unguarded? "Reverse xs ok".toList = none := by decide +kernel
  refine ⟨sealsOff_sealedLetters, fun c hc => hspared.2 c hc ?_⟩
  rw [hguarded]
  exact nofun

/-- Parentheses around the name keep its seal from being seen, and the array is turned round. -/
theorem sealed_containers_edited_in_parentheses :
    sealedLetters.SealsOff "xs".toList (.sequence 0) ∧
      sealedLetters.store.items 0 = [.string "b".toList, .string "a".toList] ∧
      ((Run.statement "Reverse (xs) ok".toList).run.run sealedLetters).2.store.items 0 =
        [.string "a".toList, .string "b".toList] ∧
      ¬ sealedLetters.store.SameAt
        ((Run.statement "Reverse (xs) ok".toList).run.run sealedLetters).2.store (.sequence 0) := by
  have hbefore : sealedLetters.store.items 0 = [.string "b".toList, .string "a".toList] := by
    decide +kernel
  have hafter : ((Run.statement "Reverse (xs) ok".toList).run.run sealedLetters).2.store.items 0 =
      [.string "a".toList, .string "b".toList] := by decide +kernel
  refine ⟨sealsOff_sealedLetters, hbefore, hafter, fun hsame => ?_⟩
  have hequal : ((Run.statement "Reverse (xs) ok".toList).run.run sealedLetters).2.store.items 0 =
      sealedLetters.store.items 0 := hsame
  rw [hbefore, hafter] at hequal
  exact absurd hequal (by decide)

end Machine

end Grimoire
