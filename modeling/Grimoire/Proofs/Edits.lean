import Grimoire.Proofs.InPlace
import Grimoire.Proofs.Mirrors
import Grimoire.Proofs.ReadBack
import Grimoire.Proofs.SelfContainment

/-!
# What a line edits

The containers that existed before a line and that the line gives new contents can be told from the
effects that it comes to: an array or a tome that is named, or the last tome on a path up to which
the keys lead to tomes. All others are as they were, however the line ends. So values that share no
container are independent: whatever lines edit the containers of the one, the other is displayed as
before. A copy and what existed before it are such values.
-/

namespace Grimoire

open Relation

/-! ## Edited containers -/

/-- The container that an effect gives new contents, of those that exist. On a path that is the last
tome up to which the keys lead to tomes; what is put after it is fresh. -/
def Effect.edited? (scope : Scope) (s : Store) : Effect → Option Value
  | setItems cell _ => some (.sequence cell)
  | setEntries cell _ => some (.tome cell)
  | bindPath root steps _ =>
    match scope.globals.get? root with
    | some (.tome first) => some (.tome (s.dig first steps.dropLast).1)
    | _ => none
  | _ => none

theorem Effect.isContainer_of_edited? {effect : Effect} {scope : Scope} {s : Store} {c : Value}
    (h : effect.edited? scope s = some c) : c.isContainer = true := by
  cases effect with
  | setItems cell _ | setEntries cell _ =>
    cases h
    rfl
  | bindPath root steps v =>
    rw [edited?] at h
    split at h <;> cases h
    rfl
  | _ => cases h

/-- A walk leaves alone what exists but for the last tome up to which the keys lead, and ends at no
other that exists. -/
theorem Store.Sound.sameAt_delve {s : Store} (hs : s.Sound) {first : Nat}
    (hfirst : s.Has (.tome first)) {keys : List Text} {c : Value} (hc : s.Has c)
    (hne : c ≠ .tome (s.dig first keys).1) :
    s.SameAt (s.delve first keys).2 c ∧ c ≠ .tome (s.delve first keys).1 := by
  rcases hdig : s.dig first keys with ⟨cell, _ | ⟨key, rest⟩⟩
  · rw [hdig] at hne
    rw [Store.delve_eq_of_dig_nil hdig]
    exact ⟨.refl s c, hne⟩
  · rw [hdig] at hne
    obtain ⟨-, hsame, hfresh⟩ := Store.delve_of_dig_cons hs hfirst hdig
    exact ⟨hsame c hc hne, fun h => hfresh (h ▸ hc)⟩

variable {σ : Type}

namespace Machine

/-- The containers that a line edits. -/
def edited (m : Machine σ) (line : Text) : List Value :=
  if line.isIdle then []
  else match Form.find? line with
    | none => []
    | some (form, g) =>
      match (Run.evaluate (form.effects g)).run.run m with
      | (.ok effects, m₁) => effects.filterMap (·.edited? m₁.scope m₁.store)
      | _ => []

theorem edited_of_evaluate {m m₁ : Machine σ} {line : Text} {form : Form} {g : Groups}
    {effects : List Effect} (hidle : line.isIdle = false)
    (hform : Form.find? line = some (form, g))
    (heval : (Run.evaluate (form.effects g)).run.run m = (.ok effects, m₁)) :
    m.edited line = effects.filterMap (·.edited? m₁.scope m₁.store) := by
  rw [edited, hidle, if_neg Bool.false_ne_true, hform]
  dsimp only
  rw [heval]

variable [Host σ]

/-- The machine after lines that are run one after the other, however each of them ends. -/
def afterLines (m : Machine σ) (lines : List Text) : Machine σ :=
  lines.foldl (fun m line => ((Run.statement line).run.run m).2) m

/-- The containers that lines edit when they are run one after the other. -/
def editedBy (m : Machine σ) : List Text → List Value
  | [] => []
  | line :: rest => m.edited line ++ ((Run.statement line).run.run m).2.editedBy rest

end Machine

namespace Run

variable {m : Machine σ} {s : Store} {P : Value → Prop} {line : Text}

/-- A path that is set leaves alone what exists but for the last tome up to which it leads. -/
theorem sparing_bindPath_of_not_edited (hm : m.Grounded) {root : Text} {steps : List Text}
    {v : Value}
    (hedited : ∀ c, (Effect.bindPath root steps v).edited? m.scope m.store = some c → ¬ P c) :
    Keeps (.sparing s P) m (bindPath root steps v) (fun _ _ => True) fun _ => True := by
  -- it is enough to know what the walk leaves alone and that it does not end there
  have hwalked : ∀ (first cell : Nat) (m₁ : Machine σ) (t : Store),
      m.scope.isSealed root = false → m.rooted root = (first, m₁) →
      m₁.store.delve first steps.dropLast = (cell, t) →
      (∀ c, P c → m.store.Has c → t.Has c ∧ m.store.SameAt t c ∧ c ≠ .tome cell) →
      Keeps (.sparing s P) m (bindPath root steps v) (fun _ _ => True) fun _ => True := by
    intro first cell m₁ t hopen hroot hwalk hspared hm
    rw [run_bindPath hopen steps v hroot hwalk]
    split
    · refine ⟨fun c hc => ?_, trivial, fun _ _ => trivial, fun _ _ => trivial⟩
      obtain ⟨hhas, hsame, -⟩ := hspared c hc (hm c hc).1
      exact ⟨hhas, (hm c hc).2.trans hsame⟩
    · refine ⟨fun c hc => ?_, trivial, fun _ _ => trivial, fun _ _ => trivial⟩
      obtain ⟨hhas, hsame, hne⟩ := hspared c hc (hm c hc).1
      exact ⟨Store.has_setEntries.2 hhas,
        ((hm c hc).2.trans hsame).trans (Store.sameAt_setEntries hne)⟩
  cases hopen : m.scope.isSealed root with
  | true =>
    intro hspared
    rw [run_bindPath_of_isSealed hopen]
    exact ⟨hspared, trivial, fun _ _ => trivial, fun _ _ => trivial⟩
  | false =>
    by_cases hroot : ∃ first, m.scope.globals.get? root = some (.tome first)
    · obtain ⟨first, hfirst⟩ := hroot
      have hhas : m.store.Has (.tome first) := hm.admits.globals.get? hfirst
      refine hwalked _ _ _ _ hopen (Machine.rooted_of_tome hfirst) rfl fun c hc hold => ?_
      have hne : c ≠ .tome (m.store.dig first steps.dropLast).1 := by
        rintro rfl
        refine hedited _ ?_ hc
        rw [Effect.edited?, hfirst]
      exact ⟨(hm.sound.delve hhas steps.dropLast).2.2 c hold,
        hm.sound.sameAt_delve hhas hold hne⟩
    · have hnone : ∀ cell, m.scope.globals.get? root ≠ some (.tome cell) :=
        fun cell hcell => hroot ⟨cell, hcell⟩
      have hextends := Store.extends_newTome m.store .empty
      have hsound : (m.store.newTome .empty).2.Sound := hm.sound.newTome fun v hv => by simp at hv
      refine hwalked _ _ _ _ hopen (Machine.rooted_of_not_tome hnone) rfl fun c hc hold => ?_
      -- the walk is inside a fresh tome, which reaches nothing that was there
      obtain ⟨hsame, hend⟩ := Store.delve_spares (s := (m.store.newTome .empty).2)
        (P := m.store.Has) (fun c hc => hextends.has hc) (Store.avoids_newTome fun _ hc => hc)
        steps.dropLast
      exact ⟨(hsound.delve Store.has_newTome steps.dropLast).2.2 c (hextends.has hold),
        (hextends.sameAt hold).trans (hsame c hold), fun h => hend.self (h ▸ hold)⟩

variable [Host σ]

/-- An effect leaves alone the containers that it does not edit. -/
theorem sparing_perform_of_not_edited (hm : m.Grounded) {effect : Effect}
    (hedited : ∀ c, effect.edited? m.scope m.store = some c → ¬ P c) :
    Keeps (.sparing s P) m (perform effect) (fun _ _ => True) fun _ => True := by
  cases effect with
  | bind name v => exact Keeps.forget sparing_bindName
  | bindSealed name v => exact sparing_bindSealed
  | bindPath root steps v => exact sparing_bindPath_of_not_edited hm hedited
  | summon path nickname => exact sparing_summon
  | setItems cell items => exact sparing_setItems (hedited _ rfl)
  | setEntries cell entries => exact Keeps.forget (sparing_setEntries (hedited _ rfl))
  | ask request => exact sparing_ask

theorem sparing_performAll_of_not_edited (hm : m.Grounded) {form : Form} {g : Groups}
    {effects : List Effect} (hfits : form.Fits g effects)
    (hedited : ∀ c ∈ effects.filterMap (·.edited? m.scope m.store), ¬ P c) :
    Keeps (.sparing s P) m (performAll effects) (fun _ _ => True) fun _ => True := by
  cases hfits with
  | nothing _ => exact keeps_pure fun _ => trivial
  | one _ _ =>
    rw [performAll_singleton]
    refine sparing_perform_of_not_edited hm fun c hc => hedited c ?_
    rw [List.mem_filterMap]
    exact ⟨_, List.mem_cons_self, hc⟩
  | plucked _ cell head rest =>
    apply (sparing_setItems (hedited (.sequence cell) List.mem_cons_self)).bind
    intro _ m₁ _ _ _
    rw [performAll_singleton]
    exact Keeps.forget sparing_bindName

/-- A line leaves alone what exists and is not edited, also when it fails. -/
theorem sameAt_statement (hm : m.Grounded) {c : Value} (hc : m.store.Has c)
    (hedited : c ∉ m.edited line) :
    ((statement line).run.run m).2.store.Has c ∧
      m.store.SameAt ((statement line).run.run m).2.store c := by
  rcases form_cases line with hformless | ⟨form, g, hidle, hform⟩
  · rw [run_statement_of_formless hformless]
    exact ⟨hc, .refl m.store c⟩
  · have hkept := keeps_evaluate (form.yields_effects (g := g)) hm
    have hextends := (retains_evaluate hm.admits (form.yields_effects (g := g))).grows.store
    rw [run_statement hidle hform]
    rcases heval : (evaluate (form.effects g)).run.run m with ⟨failure | effects, m₁⟩
    · rw [heval] at hextends
      exact ⟨hextends.has hc, hextends.sameAt hc⟩
    · rw [heval] at hextends hkept
      rw [Machine.edited_of_evaluate hidle hform heval] at hedited
      obtain ⟨hfits, -⟩ := fits_of_evaluate heval
      have hspares : Keeps (.sparing m.store (· = c)) m₁ (performAll effects) (fun _ _ => True)
          fun _ => True := by
        apply sparing_performAll_of_not_edited hkept.holds hfits
        rintro _ hmem rfl
        exact hedited hmem
      refine (hspares ?_).holds c rfl
      rintro _ rfl
      exact ⟨hextends.has hc, hextends.sameAt hc⟩

end Run

namespace Machine

variable {m : Machine σ} {c v : Value}

theorem isContainer_of_mem_edited {line : Text} (h : c ∈ m.edited line) :
    c.isContainer = true := by
  unfold edited at h
  split at h
  · cases h
  · split at h
    · cases h
    · split at h
      · obtain ⟨effect, -, heffect⟩ := List.mem_filterMap.1 h
        exact Effect.isContainer_of_edited? heffect
      · cases h

variable [Host σ]

theorem isContainer_of_mem_editedBy {lines : List Text} (h : c ∈ m.editedBy lines) :
    c.isContainer = true := by
  induction lines generalizing m with
  | nil => cases h
  | cons line rest ih =>
    rw [editedBy, List.mem_append] at h
    exact h.elim isContainer_of_mem_edited ih

/-- Lines leave alone what exists and none of them edits. -/
theorem sameAt_afterLines (hm : m.Grounded) {lines : List Text} (hc : m.store.Has c)
    (hedited : c ∉ m.editedBy lines) :
    (m.afterLines lines).store.Has c ∧ m.store.SameAt (m.afterLines lines).store c := by
  induction lines generalizing m with
  | nil => exact ⟨hc, .refl m.store c⟩
  | cons line rest ih =>
    rw [editedBy, List.mem_append, not_or] at hedited
    obtain ⟨hhas, hsame⟩ := Run.sameAt_statement hm hc hedited.1
    obtain ⟨hhas', hsame'⟩ := ih (Run.keeps_statement hm).holds hhas hedited.2
    exact ⟨hhas', hsame.trans hsame'⟩

theorem Grounded.afterLines (hm : m.Grounded) (lines : List Text) :
    (m.afterLines lines).Grounded := by
  induction lines generalizing m with
  | nil => exact hm
  | cons line rest ih => exact ih (Run.keeps_statement hm).holds

/-- A value stands for the same after lines that edit none of the containers that it reaches. -/
theorem datum_afterLines (hm : m.Grounded) {lines : List Text} (hv : m.store.Has v)
    (hedited : ∀ c ∈ m.editedBy lines, ¬ ReflTransGen m.store.Encloses v c) :
    (m.afterLines lines).store.datum v = m.store.datum v := by
  have hspared : ∀ c, ReflTransGen m.store.Encloses v c →
      (m.afterLines lines).store.Has c ∧ m.store.SameAt (m.afterLines lines).store c :=
    fun c hc => sameAt_afterLines hm (hm.sound.has_of_reflTransGen hv hc)
      fun hmem => hedited c hmem hc
  exact hm.sound.datum_of_sameAt (hm.afterLines lines).sound hv (hspared v .refl).1
    fun c hc => (hspared c hc).2

/-- A value that exists has a copy that is displayed as the value is. Its containers are fresh, so
none of them is reached from what existed before, be it a variable or anything else. Whatever lines
are run then, the copy is displayed as it was if the containers that they edit existed before the
copy or came after it, and what existed before is displayed as it was if they did not exist before.
A line that mirrors the value binds the copy to a name. -/
theorem mirrored_values_are_detached (hm : m.Grounded) (hv : m.store.Has v) :
    ∃ copy t, m.store.mirror v = (copy, t) ∧ m.store.Extends t ∧
      t.display copy = m.store.display v ∧
      (∀ c, c.isContainer = true → ReflTransGen t.Encloses copy c →
        t.Has c ∧ ¬ m.store.Has c ∧ ∀ w, m.store.Has w → ¬ ReflTransGen t.Encloses w c) ∧
      (∀ name w, m.scope.lookup? name = some w → m.store.Has w) ∧
      (∀ (m₀ : Machine σ) line g, Form.find? line = some (.computation .mirror, g) →
        (Run.evaluate (g.value 1)).run.run m₀ = (.ok v, m) →
        (Run.statement line).run.run m₀ =
          (Run.bindName (g.text 2) copy).run.run (m.withStore t)) ∧
      ∀ (m' : Machine σ) lines, m'.Grounded → t.Extends m'.store →
        ((∀ c ∈ m'.editedBy lines, m.store.Has c ∨ ¬ t.Has c) →
          (m'.afterLines lines).store.display copy = m.store.display v) ∧
        ((∀ c ∈ m'.editedBy lines, ¬ m.store.Has c) → ∀ w, m.store.Has w →
          (m'.afterLines lines).store.display w = m.store.display w) := by
  have hcopies := hm.sound.copies_mirror hv
  rcases hmirror : m.store.mirror v with ⟨copy, t⟩
  rw [hmirror] at hcopies
  refine ⟨copy, t, rfl, hcopies.grows, ?_, ?_, ?_, ?_, ?_⟩
  · rw [Store.display_eq, Store.display_eq, hcopies.datum]
  · intro c hc hreach
    refine ⟨hcopies.sound.has_of_reflTransGen hcopies.has hreach, hcopies.fresh c hc hreach, ?_⟩
    intro w hw hold
    rw [hcopies.grows.reaches_iff hm.sound hw] at hold
    exact hcopies.fresh c hc hreach (hm.sound.has_of_reflTransGen hw hold)
  · exact fun name w hw => hm.admits.lookup? hw
  · intro m₀ line g hform hvalue
    have hbuild : (Run.evaluate (Work.build (·.mirror v) : Eval Value)).run.run m =
        (.ok (m.store.mirror v).1, m.withStore (m.store.mirror v).2) := rfl
    rw [hmirror] at hbuild
    apply Run.run_statement_of_value (Form.isIdle_of_find? (by decide) (by decide) hform) hform
    show (Run.evaluate (g.value 1 >>= _)).run.run m₀ = _
    rw [Run.run_evaluate_bind_of_ok hvalue]
    exact hbuild
  · intro m' lines hm' hextends
    constructor
    · intro hedited
      rw [Store.display_eq, Store.display_eq, datum_afterLines hm' (hextends.has hcopies.has),
        hcopies.sound.datum_of_extends hextends hcopies.has, hcopies.datum]
      intro c hc hreach
      rw [hextends.reaches_iff hcopies.sound hcopies.has] at hreach
      rcases hedited c hc with hold | hlater
      · exact hcopies.fresh c (isContainer_of_mem_editedBy hc) hreach hold
      · exact hlater (hcopies.sound.has_of_reflTransGen hcopies.has hreach)
    · intro hedited w hw
      have hgrown := hcopies.grows.trans hextends
      rw [Store.display_eq, Store.display_eq, datum_afterLines hm' (hgrown.has hw),
        hm.sound.datum_of_extends hgrown hw]
      intro c hc hreach
      rw [hgrown.reaches_iff hm.sound hw] at hreach
      exact hedited c hc (hm.sound.has_of_reflTransGen hw hreach)

/-- A machine with an array that is bound to a name and in a tome. -/
def taggedBag : Machine Transcript :=
  afterCalls {} default {}
    [.execute "xs is [1, 2] ok".toList, .execute "bag is Tome \x7b items: xs, n: 3 \x7d ok".toList]

/-- A line that mirrors the tome. -/
def mirroring : Text := "Mirror bag into twin ok".toList

/-- The places of the operand and of the name in that line. -/
def mirroringGroups : Groups :=
  ⟨mirroring, [(2, ⟨16, 20⟩), (1, ⟨7, 10⟩)]⟩

/-- Lines that edit the array and the tome. -/
def editing : List Text :=
  ["BindFront 9 to xs ok".toList, "Set bag.n to 4 ok".toList]

/-- Lines that edit the copies of the two. -/
def editingTwin : List Text :=
  ["Reverse twin.items ok".toList, "Set twin.n to 5 ok".toList]

/-- The machine on which it has been mirrored. -/
def twinned : Machine Transcript :=
  ((Run.statement mirroring).run.run taggedBag).2

theorem mirrored_values_are_detached_taggedBag :
    (twinned.afterLines editing).store.display (.tome 1) = taggedBag.store.display (.tome 0) ∧
      (twinned.afterLines editingTwin).store.display (.tome 0) =
        taggedBag.store.display (.tome 0) := by
  have hform : Form.find? mirroring = some (.computation .mirror, mirroringGroups) := by
    decide +kernel
  have hoperand : mirroringGroups.text 1 = "bag".toList := by decide +kernel
  have hvalue : (Run.evaluate (mirroringGroups.value 1)).run.run taggedBag =
      (.ok (.tome 0), taggedBag) := by
    rw [Groups.value, hoperand, Run.run_value_of_isIdentifier (by decide) (by decide) (by decide)]
    exact Prod.ext (by decide +kernel) rfl
  have hm : taggedBag.Grounded := grounded_afterCalls _ _ _ _
  have hsequences : taggedBag.store.sequences.size = 1 := by decide +kernel
  have htomes : taggedBag.store.tomes.size = 1 := by decide +kernel
  have hv : taggedBag.store.Has (.tome 0) := by simp [Store.Has, htomes]
  obtain ⟨copy, t, hmirror, -, -, -, -, hline, hlater⟩ := mirrored_values_are_detached hm hv
  have hcopy : (taggedBag.store.mirror (.tome 0)).1 = .tome 1 := by decide +kernel
  rw [hmirror] at hcopy
  obtain rfl : copy = .tome 1 := hcopy
  have hopen : taggedBag.scope.isSealed (mirroringGroups.text 2) = false := by decide +kernel
  have hrun := hline taggedBag mirroring mirroringGroups hform hvalue
  rw [Run.run_bindName_of_open (m := taggedBag.withStore t) hopen] at hrun
  have hstore : twinned.store = t := congrArg (fun out => out.2.store) hrun
  have hgrounded : twinned.Grounded := (Run.keeps_statement hm).holds
  have hextends : t.Extends twinned.store := hstore ▸ .refl t
  have hedits : twinned.editedBy editing = [.sequence 0, .tome 0] := by decide +kernel
  have hedits' : twinned.editedBy editingTwin = [.sequence 1, .tome 1] := by decide +kernel
  constructor
  · apply (hlater twinned editing hgrounded hextends).1
    rw [hedits]
    simp [Store.Has, hsequences, htomes]
  · apply (hlater twinned editingTwin hgrounded hextends).2 _ _ hv
    rw [hedits']
    simp [Store.Has, hsequences, htomes]

end Machine

end Grimoire
