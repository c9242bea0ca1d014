import Grimoire.Proofs.Bindings
import Grimoire.Proofs.Lens
import Grimoire.Proofs.Phrases
import Grimoire.Proofs.Seals

/-!
# What is bound is read back

The value that a line binds to a name, or sets a path to, is the value that the name or path has
afterwards, as far as it is read as one: the words for truth values and the numerals are read as
what they stand for, whatever is bound to them. A line that sets a path has no effect on any other
path but through the one lookup whose result it replaces.
-/

namespace Grimoire

open Text

/-! ## Values of names and paths -/

namespace Text

/-- Paths have no blanks around them. -/
theorem trim_of_isPath {path : Text} (hpath : path.isPath = true) : path.trim = path :=
  (Symbol.solid_of_takes_path (Symbol.takes_path hpath)).firm.trim_self

/-- A path has a root. -/
theorem exists_split (path : Text) : ∃ keys, splitOn '.' path = path.pathRoot :: keys := by
  obtain ⟨keys, hsplit, -⟩ := exists_splitOn_eq '.' path
  exact ⟨keys, hsplit⟩

end Text

namespace Run

variable {σ : Type} {m : Machine σ} {name path : Text}

/-- A word for a truth value has that value, whatever is bound to it. -/
theorem run_value_of_truthWord (h : name.isTrueWord = true ∨ name.isFalseWord = true)
    (htrim : name.trim = name) :
    (evaluate (Eval.value name)).run.run m = (.ok (.boolean name.isTrueWord), m) := by
  rw [Eval.value, Expr.ofText_eq_assemble, htrim, Layer.of_truthWord h]
  rfl

/-- A numeral has its number as its value, whatever is bound to it. -/
theorem run_value_of_isNumeral (h : name.isNumeral = true) (htrim : name.trim = name) :
    (evaluate (Eval.value name)).run.run m = (.ok (.number name.numeralValue), m) := by
  rw [Eval.value, Expr.ofText_eq_assemble, htrim, Layer.of_numeral h]
  rfl

/-- The value of a path is found by following it. -/
theorem run_value_of_isPath (hpath : path.isPath = true) (htrue : path.isTrueWord = false)
    (hfalse : path.isFalseWord = false) {root : Text} {keys : List Text}
    (hsplit : splitOn '.' path = root :: keys) :
    (evaluate (Eval.value path)).run.run m = (.ok (m.scope.follow m.store root keys), m) := by
  rw [Eval.value, Expr.ofText_eq_assemble, trim_of_isPath hpath,
    Layer.of_isPath hpath htrue hfalse, Layer.ofPath, hsplit]
  rfl

/-- The value of an identifier is what is bound to it. -/
theorem run_value_of_isIdentifier (h : name.isIdentifier = true) (htrue : name.isTrueWord = false)
    (hfalse : name.isFalseWord = false) :
    (evaluate (Eval.value name)).run.run m = (.ok (m.scope.follow m.store name []), m) := by
  have hpath : name.isPath = true := by
    rw [isPath, splitOn_identifier h, List.all_cons, h]
    rfl
  exact run_value_of_isPath hpath htrue hfalse (splitOn_identifier h)

/-- An operand that is a name has what is bound to the name as its value. -/
theorem run_value_of_bound {g : Groups} {slot : Nat} {v : Value}
    (hname : (g.text slot).isIdentifier = true ∧ (g.text slot).isTrueWord = false ∧
      (g.text slot).isFalseWord = false)
    (hbound : m.scope.follow m.store (g.text slot) [] = v) :
    (evaluate (g.value slot)).run.run m = (.ok v, m) := by
  rw [Groups.value, run_value_of_isIdentifier hname.1 hname.2.1 hname.2.2, hbound]

end Run

/-! ## Lines that bind -/

/-- What setting a path to a value comes to. -/
def Effect.ofPath (path : Text) (v : Value) : Effect :=
  match splitOn '.' path with
  | root :: key :: keys => .bindPath root (key :: keys) v
  | _ => .bind path v

theorem Deed.effects_setPath (g : Groups) :
    Deed.effects .setPath g = do return [Effect.ofPath (g.text 1) (← g.value 2)] := by
  show pathSet g = _
  unfold pathSet Effect.ofPath
  rcases splitOn '.' (g.text 1) with _ | ⟨root, _ | ⟨key, keys⟩⟩ <;> rfl

namespace Run

variable {σ : Type} [Host σ] {m m' : Machine σ} {name path text : Text}

/-- A line that comes to one effect with the value of a text evaluates the text and performs the
effect. -/
theorem exists_of_run_statement {line operand : Text} {form : Form} {g : Groups}
    {effect : Value → Effect} (hidle : line.isIdle = false)
    (hform : Form.find? line = some (form, g))
    (heffects : form.effects g = do return [effect (← Eval.value operand)])
    (hrun : (statement line).run.run m = (.ok (), m')) :
    ∃ v m₁, (evaluate (Eval.value operand)).run.run m = (.ok v, m₁) ∧
      (perform (effect v)).run.run m₁ = (.ok (), m') := by
  rw [run_statement hidle hform, heffects] at hrun
  split at hrun
  · next effects m₁ heval =>
    obtain ⟨r, hall, rfl⟩ := exists_of_run_evaluate heval
    obtain ⟨v, r', hvalue, hrest⟩ := Eval.exists_of_run_bind hall
    cases hrest
    rw [performAll_singleton] at hrun
    exact ⟨v, _, run_evaluate_of_ok hvalue, hrun⟩
  · cases hrun

/-- A line that binds a name binds it to the value of the text. -/
theorem exists_of_run_assigning (hne : name ≠ []) (hname : ∀ c ∈ name, isWord c = true)
    (hrun : (statement (assigning name text)).run.run m = (.ok (), m')) :
    ∃ v m₁, (evaluate (Eval.value text)).run.run m = (.ok v, m₁) ∧
      (bindName name v).run.run m₁ = (.ok (), m') := by
  obtain ⟨found, hform, rfl, htrim⟩ := Form.find?_assigning hne hname text
  rw [← Eval.value_congr htrim]
  exact exists_of_run_statement (isIdle_assigning hne hname text) hform rfl hrun

/-- A line that sets a path sets it to the value of the text. -/
theorem exists_of_run_setting (hpath : path.isPath = true)
    (his : path.map foldCase ≠ "is".toList)
    (hrun : (statement (setting path text)).run.run m = (.ok (), m')) :
    ∃ v m₁, (evaluate (Eval.value text)).run.run m = (.ok v, m₁) ∧
      (perform (Effect.ofPath path v)).run.run m₁ = (.ok (), m') := by
  obtain ⟨found, hform, rfl, htrim⟩ := Form.find?_setting hpath his text
  rw [← Eval.value_congr htrim]
  exact exists_of_run_statement (isIdle_setting (found.text 1) text) hform
    (Deed.effects_setPath found) hrun

omit [Host σ] in
/-- A machine on which a text has been evaluated has added cells. -/
theorem grounded_of_run_value (hm : m.Grounded) {v : Value}
    (hvalue : (evaluate (Eval.value text)).run.run m = (.ok v, m')) :
    m'.Grounded ∧ m'.scope = m.scope ∧ m.store.Extends m'.store := by
  have hyields : Eval.Yields .acyclic m.scope m.resources (Eval.value text)
      Discipline.acyclic.valid := Eval.yields_value
  have hkept := keeps_evaluate hyields hm
  have hretains := retains_evaluate hm.admits hyields
  rw [hvalue] at hkept hretains
  exact ⟨hkept.holds, hretains.scope, hretains.grows.store⟩

omit [Host σ] in
/-- What a text is evaluated to exists. -/
theorem has_of_run_value (hm : m.Grounded) {v : Value}
    (hvalue : (evaluate (Eval.value text)).run.run m = (.ok v, m')) : m'.store.Has v := by
  have hyields : Eval.Yields .acyclic m.scope m.resources (Eval.value text)
      Discipline.acyclic.valid := Eval.yields_value
  have hkept := keeps_evaluate hyields hm
  rw [hvalue] at hkept
  exact hkept.result v rfl

omit [Host σ] in
/-- A name that is bound was open. -/
theorem eq_of_run_bindName {v : Value} (hrun : (bindName name v).run.run m = (.ok (), m')) :
    m' = m.withScope { m.scope with globals := m.scope.globals.insert name v } := by
  cases hname : m.scope.isSealed name with
  | true =>
    rw [run_bindName_of_isSealed hname] at hrun
    cases hrun
  | false =>
    rw [run_bindName_of_open hname] at hrun
    cases hrun
    rfl

omit [Host σ] in
/-- A name is a path that is all root. -/
theorem follow_bindName (hframes : m.scope.frames = []) {v : Value}
    (hrun : (bindName name v).run.run m = (.ok (), m')) :
    m'.scope.follow m'.store name [] = v ∧ ∀ other others,
      m.scope.replaced m.store name [] ∉ m.scope.lookups m.store other others →
      m'.scope.follow m'.store other others = m.scope.follow m.store other others := by
  obtain rfl := eq_of_run_bindName hrun
  constructor
  · exact Scope.follow_of_lookup? ((Scope.lookup?_bound hframes v name).trans (if_pos rfl)) []
  · intro other others hother
    have hne : other ≠ name := by
      rintro rfl
      rw [Scope.replaced_nil] at hother
      exact hother (Scope.name_mem_lookups others)
    exact Scope.follow_congr ((Scope.lookup?_bound hframes v other).trans (if_neg hne)) rfl
      fun _ _ => rfl

/-- Setting a path, be it a name or a longer one. -/
theorem follow_ofPath (hm : m.Grounded) (hframes : m.scope.frames = []) {root : Text}
    {keys : List Text} (hsplit : splitOn '.' path = root :: keys) {v : Value}
    (hrun : (perform (Effect.ofPath path v)).run.run m = (.ok (), m')) :
    m'.scope.follow m'.store root keys = v ∧ ∀ other others,
      m.scope.replaced m.store root keys ∉ m.scope.lookups m.store other others →
      m'.scope.follow m'.store other others = m.scope.follow m.store other others := by
  rw [Effect.ofPath, hsplit] at hrun
  cases keys with
  | cons key keys => exact follow_bindPath hm hframes (List.cons_ne_nil key keys) hrun
  | nil =>
    obtain ⟨rest, hroot, hwhole⟩ := exists_splitOn_eq '.' path
    rw [hsplit] at hroot
    obtain ⟨rfl, rfl⟩ := List.cons.inj hroot
    rw [hwhole rfl] at hsplit ⊢
    exact follow_bindName hframes hrun

end Run

/-! ## Added cells -/

namespace Scope

variable {scope : Scope} {s t : Store} {root : Text}

/-- Added cells make no difference to what setting a path replaces. -/
theorem replaced_of_extends (hs : s.Sound) (hglobals : ∀ v ∈ scope.globals.values, s.Has v)
    (h : s.Extends t) (keys : List Text) :
    scope.replaced t root keys = scope.replaced s root keys := by
  unfold replaced
  split
  · next first key rest hfirst =>
    have hhas : s.Has (.tome first) := hglobals _ (Table.mem_values_of_get? hfirst)
    rw [Store.replaced, Store.replaced, h.dig hs hhas]
  · rfl

/-- Added cells make no difference to the lookups by which a path is read. -/
theorem lookups_of_extends (hframes : scope.frames = []) (hs : s.Sound)
    (hglobals : ∀ v ∈ scope.globals.values, s.Has v) (h : s.Extends t) (keys : List Text) :
    scope.lookups t root keys = scope.lookups s root keys := by
  rw [lookups, lookups]
  split
  · next v hv =>
    rw [h.lookups hs (has_of_lookup? hframes hglobals hv)]
  · rfl

/-- Added cells make no difference to the value of a path. -/
theorem follow_of_extends (hframes : scope.frames = []) (hs : s.Sound)
    (hglobals : ∀ v ∈ scope.globals.values, s.Has v) (h : s.Extends t) (keys : List Text) :
    scope.follow t root keys = scope.follow s root keys := by
  refine follow_congr rfl rfl fun v hv => ?_
  exact h.foldl_member hs (has_of_lookup? hframes hglobals hv) keys

end Scope

/-! ## Names -/

namespace Machine

variable {σ : Type} [Host σ] {m m' : Machine σ} {name path text : Text}

/-- On a machine with no call in progress a line that binds a name, if it succeeds, binds it to the
value of the text. An identifier is then read as that value, unless it is a word for a truth value.
Such a word and a numeral are read as what they stand for. -/
theorem assigned_is_read_back (hframes : m.scope.frames = []) (hne : name ≠ [])
    (hname : ∀ c ∈ name, isWord c = true)
    (hrun : (Run.statement (assigning name text)).run.run m = (.ok (), m')) :
    ∃ v m₁, (Run.evaluate (Eval.value text)).run.run m = (.ok v, m₁) ∧
      m'.scope.globals.get? name = some v ∧
      (name.isIdentifier = true → name.isTrueWord = false → name.isFalseWord = false →
        (Run.evaluate (Eval.value name)).run.run m' = (.ok v, m')) ∧
      (name.isTrueWord = true ∨ name.isFalseWord = true →
        (Run.evaluate (Eval.value name)).run.run m' = (.ok (.boolean name.isTrueWord), m')) ∧
      (name.isNumeral = true →
        (Run.evaluate (Eval.value name)).run.run m' = (.ok (.number name.numeralValue), m')) := by
  obtain ⟨v, m₁, hvalue, hbind⟩ := Run.exists_of_run_assigning hne hname hrun
  have htrim : name.trim = name := (Symbol.solid_of_word hne hname).firm.trim_self
  refine ⟨v, m₁, hvalue, ?_, ?_, ?_, ?_⟩
  · obtain rfl := Run.eq_of_run_bindName hbind
    exact (Table.get?_insert ..).trans (if_pos rfl)
  · intro hident htrue hfalse
    obtain ⟨r, -, rfl⟩ := Run.exists_of_run_evaluate hvalue
    have hread := (Run.follow_bindName (m := { m with resources := r }) hframes hbind).1
    have hpath : name.isPath = true := by
      rw [isPath, splitOn_identifier hident, List.all_cons, hident]
      rfl
    rw [Run.run_value_of_isPath hpath htrue hfalse (splitOn_identifier hident), hread]
  · exact fun htruth => Run.run_value_of_truthWord htruth htrim
  · exact fun hnumeral => Run.run_value_of_isNumeral hnumeral htrim

/-- A machine on which nothing has been run. -/
def blank : Machine Transcript :=
  afterCalls {} default {} []

theorem assigned_is_read_back_hp :
    blank.scope.frames = [] ∧ "hp".toList ≠ [] ∧ (∀ c ∈ "hp".toList, isWord c = true) ∧
      ((Run.statement (assigning "hp".toList "2 + 3".toList)).run.run blank).1 = .ok () ∧
      ((Run.evaluate (Eval.value "hp".toList)).run.run
        ((Run.statement (assigning "hp".toList "2 + 3".toList)).run.run blank).2).1 =
          .ok (.number (.ofNat 5)) := by
  have hname : ∀ c ∈ "hp".toList, isWord c = true := by decide
  have hrun : ((Run.statement (assigning "hp".toList "2 + 3".toList)).run.run blank).1 = .ok () := by
    decide +kernel
  have hvalue : ((Run.evaluate (Eval.value "2 + 3".toList)).run.run blank).1 =
      .ok (.number (.ofNat 5)) := by decide +kernel
  obtain ⟨v, m₁, hv, -, hread, -⟩ :=
    assigned_is_read_back (m := blank) rfl (by decide) hname (Prod.ext hrun rfl)
  rw [hv] at hvalue
  cases hvalue
  exact ⟨rfl, by decide, hname, hrun,
    congrArg Prod.fst (hread (by decide) (by decide +kernel) (by decide +kernel))⟩

/-- A word for a truth value may be bound, and it keeps its truth value. -/
theorem truth_is_not_read_back :
    ((Run.statement (assigning "truth".toList "5".toList)).run.run blank).1 = .ok () ∧
      ((Run.evaluate (Eval.value "5".toList)).run.run blank).1 = .ok (.number (.ofNat 5)) ∧
      ((Run.evaluate (Eval.value "truth".toList)).run.run
        ((Run.statement (assigning "truth".toList "5".toList)).run.run blank).2).1 =
          .ok (.boolean true) := by
  decide +kernel

/-! ## Paths -/

/-- The lookups by which a text is read that is read as a path. -/
def lookups (m : Machine σ) (path : Text) : List Lookup :=
  match Layer.of path with
  | .path root keys => m.scope.lookups m.store root keys
  | _ => []

/-- The lookup whose result is replaced when a path is set. -/
def replaced (m : Machine σ) (path : Text) : Lookup :=
  match splitOn '.' path with
  | root :: keys => m.scope.replaced m.store root keys
  | [] => .name path

omit [Host σ] in
theorem replaced_of_split {root : Text} {keys : List Text}
    (hsplit : splitOn '.' path = root :: keys) :
    m.replaced path = m.scope.replaced m.store root keys := by
  rw [replaced, hsplit]

omit [Host σ] in
theorem lookups_of_split (hpath : path.isPath = true) (htrue : path.isTrueWord = false)
    (hfalse : path.isFalseWord = false) {root : Text} {keys : List Text}
    (hsplit : splitOn '.' path = root :: keys) :
    m.lookups path = m.scope.lookups m.store root keys := by
  rw [lookups, Layer.of_isPath hpath htrue hfalse, Layer.ofPath, hsplit]

/-- Whatever calls have been made on a fresh machine, if a line sets a path and succeeds, the path
is read as the value of the text, and every path that was read without the lookup whose result is
replaced is read as before, whatever names lead to the tomes on the way. -/
theorem set_path_is_read_back {config : Config} {clock : Clock} {host : σ} {calls : List Call}
    (hm : m = afterCalls config clock host calls) (hpath : path.isPath = true)
    (htrue : path.isTrueWord = false) (hfalse : path.isFalseWord = false)
    (his : path.map foldCase ≠ "is".toList)
    (hrun : (Run.statement (setting path text)).run.run m = (.ok (), m')) :
    ∃ v m₁, (Run.evaluate (Eval.value text)).run.run m = (.ok v, m₁) ∧
      (Run.evaluate (Eval.value path)).run.run m' = (.ok v, m') ∧
      ∀ other, other.isPath = true → m.replaced path ∉ m.lookups other →
        ∃ w, (Run.evaluate (Eval.value other)).run.run m = (.ok w, m) ∧
          (Run.evaluate (Eval.value other)).run.run m' = (.ok w, m') := by
  have hgrounded : m.Grounded := hm ▸ grounded_afterCalls config clock host calls
  have hframes : m.scope.frames = [] := hm ▸ (sinceReset_afterCalls config clock host calls).frames
  obtain ⟨v, m₁, hvalue, hset⟩ := Run.exists_of_run_setting hpath his hrun
  obtain ⟨hgrounded₁, hscope, hextends⟩ := Run.grounded_of_run_value hgrounded hvalue
  have hframes₁ : m₁.scope.frames = [] := by rw [hscope, hframes]
  obtain ⟨keys, hsplit⟩ := exists_split path
  obtain ⟨hread, hothers⟩ := Run.follow_ofPath hgrounded₁ hframes₁ hsplit hset
  refine ⟨v, m₁, hvalue, ?_, ?_⟩
  · rw [Run.run_value_of_isPath hpath htrue hfalse hsplit, hread]
  · intro other hother havoids
    by_cases hword : other.isTrueWord = true ∨ other.isFalseWord = true
    · -- such a word is looked up nowhere
      have htrim := trim_of_isPath hother
      exact ⟨_, Run.run_value_of_truthWord hword htrim, Run.run_value_of_truthWord hword htrim⟩
    rw [not_or, Bool.not_eq_true, Bool.not_eq_true] at hword
    obtain ⟨others, hsplit'⟩ := exists_split other
    rw [replaced_of_split hsplit, lookups_of_split hother hword.1 hword.2 hsplit'] at havoids
    have hsound := hgrounded.sound
    have hglobals := hgrounded.admits.globals
    have hsame := hothers other.pathRoot others
    -- evaluating the text has only added cells
    rw [hscope, Scope.replaced_of_extends hsound hglobals hextends,
      Scope.lookups_of_extends hframes hsound hglobals hextends,
      Scope.follow_of_extends hframes hsound hglobals hextends] at hsame
    refine ⟨_, Run.run_value_of_isPath hother hword.1 hword.2 hsplit', ?_⟩
    rw [Run.run_value_of_isPath hother hword.1 hword.2 hsplit', hsame havoids]

/-- A machine with a tome that is bound to a name and in another tome. -/
def sharedBag : Machine Transcript :=
  afterCalls {} default {}
    [.execute "bag is Tome \x7b gold: 1 \x7d ok".toList,
      .execute "hero is Tome \x7b bag: bag \x7d ok".toList]

theorem set_path_is_read_back_sharedBag :
    ((Run.statement (setting "hero.bag.gold".toList "7".toList)).run.run sharedBag).1 = .ok () ∧
      sharedBag.replaced "hero.bag.gold".toList ∉ sharedBag.lookups "hero.bag".toList ∧
      ((Run.evaluate (Eval.value "hero.bag.gold".toList)).run.run
        ((Run.statement (setting "hero.bag.gold".toList "7".toList)).run.run sharedBag).2).1 =
          .ok (.number (.ofNat 7)) ∧
      ((Run.evaluate (Eval.value "hero.bag".toList)).run.run
        ((Run.statement (setting "hero.bag.gold".toList "7".toList)).run.run sharedBag).2).1 =
          .ok (.tome 0) := by
  have hrun : ((Run.statement (setting "hero.bag.gold".toList "7".toList)).run.run
      sharedBag).1 = .ok () := by decide +kernel
  have hvalue : ((Run.evaluate (Eval.value "7".toList)).run.run sharedBag).1 =
      .ok (.number (.ofNat 7)) := by decide +kernel
  have hbefore : ((Run.evaluate (Eval.value "hero.bag".toList)).run.run sharedBag).1 =
      .ok (.tome 0) := by decide +kernel
  have havoids : sharedBag.replaced "hero.bag.gold".toList ∉
      sharedBag.lookups "hero.bag".toList := by decide +kernel
  have hpath : isPath "hero.bag.gold".toList = true := by decide
  have hrun' : (Run.statement (setting "hero.bag.gold".toList "7".toList)).run.run sharedBag =
      (.ok (), _) := Prod.ext hrun rfl
  obtain ⟨v, m₁, hv, hread, hothers⟩ := set_path_is_read_back (m := sharedBag) rfl hpath
    (by decide +kernel) (by decide +kernel) (by decide) hrun'
  obtain ⟨w, hw, hafter⟩ := hothers "hero.bag".toList (by decide) havoids
  rw [hv] at hvalue
  rw [hw] at hbefore
  cases hvalue
  cases hbefore
  exact ⟨hrun, havoids, congrArg Prod.fst hread, congrArg Prod.fst hafter⟩

/-- A line that begins with `Set is to` binds the name `Set`, and the path `is` has no value. -/
theorem path_is_is_not_read_back :
    isPath "is".toList = true ∧ isTrueWord "is".toList = false ∧ isFalseWord "is".toList = false ∧
      ((Run.statement (setting "is".toList "5".toList)).run.run blank).1 = .ok () ∧
      ((Run.evaluate (Eval.value "5".toList)).run.run blank).1 = .ok (.number (.ofNat 5)) ∧
      ((Run.evaluate (Eval.value "is".toList)).run.run
        ((Run.statement (setting "is".toList "5".toList)).run.run blank).2).1 =
          .ok .undefined := by
  decide +kernel

end Machine

end Grimoire
