import Grimoire.Proofs.Trails

/-!
# What a refused self-containment leaves behind

No container may be put inside itself, and a line that would do so fails. The deeds that edit a
container make sure of it while they are evaluated, before anything is changed. A path is another
matter: the last tome of the path has to be found first, and the tomes that are missing on the way
are put there as it is looked for. If the value holds the last tome then the walk began at a tome
that existed, and the fresh tomes stay. So a refused line leaves everything as it was, or it leaves
one tome that existed with a fresh one under the first key that led to no tome.
-/

namespace Grimoire

open Relation

/-! ## The search finds only what is there -/

theorem Value.eq_of_sameCell {v c : Value} (h : v.sameCell c = true) : v = c := by
  cases v <;> cases c <;> simp [Value.sameCell] at h ⊢ <;> exact h

namespace Store

variable {s : Store} {v c : Value}

/-- What a search finds is reached. -/
theorem reaches_of_holdsWithin {depth : Nat} (h : s.holdsWithin c depth v = true) :
    ReflTransGen s.Encloses v c := by
  induction depth generalizing v with
  | zero =>
    rw [Value.eq_of_sameCell h]
  | succ depth ih =>
    rw [holdsWithin, Bool.or_eq_true, List.any_eq_true] at h
    rcases h with hsame | ⟨w, hw, hfound⟩
    · rw [Value.eq_of_sameCell hsame]
    · exact (ih hfound).head hw

end Store

/-! ## Gaps -/

/-- The entry where the walk of an effect puts its first fresh tome, if it begins at a tome that is
there. -/
def Effect.gap? (scope : Scope) (s : Store) : Effect → Option (Nat × Text)
  | bindPath root steps _ =>
    match scope.globals.get? root with
    | some (.tome first) =>
      match s.dig first steps.dropLast with
      | (cell, key :: _) => some (cell, key)
      | (_, []) => none
    | _ => none
  | _ => none

/-- The entry where a line puts its first fresh tome: the line sets a path from a name that has a
tome, the value is there, and a key before the last leads to no tome. -/
def Machine.gap? {σ : Type} (m : Machine σ) (line : Text) : Option (Nat × Text) :=
  if line.isIdle then none
  else (Form.find? line).bind fun found =>
    match ((Run.evaluate (found.1.effects found.2)).run.run m).1 with
    | .ok [effect] => effect.gap? m.scope m.store
    | _ => none

namespace Effect

variable {effect : Effect} {scope : Scope} {s t : Store}

/-- Added cells make no gap and close none. -/
theorem gap?_of_extends (hs : s.Sound) (hglobals : ∀ v ∈ scope.globals.values, s.Has v)
    (h : s.Extends t) : effect.gap? scope t = effect.gap? scope s := by
  cases effect with
  | bindPath root steps v =>
    rw [gap?, gap?]
    split
    · next first hfirst =>
      rw [h.dig hs (hglobals _ (Table.mem_values_of_get? hfirst))]
    · rfl
  | _ => rfl

/-- A gap is in a tome that exists. -/
theorem has_of_gap? (hs : s.Sound) (hglobals : ∀ v ∈ scope.globals.values, s.Has v) {cell : Nat}
    {key : Text} (h : effect.gap? scope s = some (cell, key)) : s.Has (.tome cell) := by
  cases effect with
  | bindPath root steps v =>
    rw [gap?] at h
    split at h
    · next first hfirst =>
      have hreach := Store.reaches_dig s first steps.dropLast
      split at h
      · next other _ _ hdig =>
        cases h
        rw [hdig] at hreach
        exact hs.has_of_reflTransGen (hglobals _ (Table.mem_values_of_get? hfirst)) hreach
      · cases h
    · cases h
  | _ => cases h

end Effect

namespace Machine

variable {σ : Type} {m m₁ m' : Machine σ} {cell : Nat} {key : Text}

/-- The second machine is the first with a fresh tome under a key of a tome that was there: no name
is bound otherwise and every other container that was there holds what it held. -/
structure Planted (m : Machine σ) (cell : Nat) (key : Text) (m' : Machine σ) : Prop where
  config : m'.config = m.config
  host : m'.host = m.host
  scope : m'.scope = m.scope
  registry : m'.registry = m.registry
  sameAt : ∀ c, m.store.Has c → c ≠ .tome cell → m.store.SameAt m'.store c
  has : m.store.Has (.tome cell)
  fresh : ∃ fresh, ¬ m.store.Has (.tome fresh) ∧
    m'.store.entries cell = (m.store.entries cell).insert key (.tome fresh)

/-- The tome with the fresh one is not what it was. -/
theorem Planted.not_sameAt (h : m.Planted cell key m') (hs : m.store.Sound) :
    ¬ m.store.SameAt m'.store (.tome cell) := by
  intro hsame
  obtain ⟨fresh, hmissing, hentries⟩ := h.fresh
  have hold : m'.store.entries cell = m.store.entries cell := hsame
  have hget : (m.store.entries cell).get? key = some (.tome fresh) := by
    rw [← hold, hentries, Table.get?_insert, if_pos rfl]
  exact hmissing (hs.closed (.tome cell) _ (Table.mem_values_of_get? hget))

/-- Cells added before make no difference to the tomes that were there. -/
theorem Retains.planted (h : m.Retains m₁) (hcell : m.store.Has (.tome cell))
    (h' : m₁.Planted cell key m') : m.Planted cell key m' where
  config := h'.config.trans h.config
  host := h'.host.trans h.host
  scope := h'.scope.trans h.scope
  registry := h'.registry.trans h.registry
  sameAt c hc hne :=
    (h.grows.store.sameAt hc).trans (h'.sameAt c (h.grows.store.has hc) hne)
  has := hcell
  fresh := by
    obtain ⟨fresh, hmissing, hentries⟩ := h'.fresh
    have hsame : m₁.store.entries cell = m.store.entries cell := h.grows.store.entries hcell
    exact ⟨fresh, fun hfresh => hmissing (h.grows.store.has hfresh), hsame ▸ hentries⟩

end Machine

/-! ## Refused effects -/

theorem Registry.eq_of_load_error {r : Registry} {path : Text} {fault : Fault}
    (h : r.load path = .error fault) : fault = .unknownModule path := by
  unfold load at h
  split at h
  · cases h
  · split at h
    · cases h
    · exact (Except.error.inj h).symm

namespace Run

variable {σ : Type} {m : Machine σ} {root : Text} {steps : List Text} {v : Value}

/-- A walk that begins at a fresh tome ends at a fresh one, which no value holds that was there
before. -/
theorem holds_eq_false_of_fresh (hs : m.store.Sound) (hv : m.store.Has v) (keys : List Text) :
    ((m.store.newTome .empty).2.delve m.store.tomes.size keys).2.holds v
      (.tome ((m.store.newTome .empty).2.delve m.store.tomes.size keys).1) = false := by
  have hextends := Store.extends_newTome m.store .empty
  obtain ⟨hsame, hend⟩ := Store.delve_spares (s := (m.store.newTome .empty).2)
    (P := m.store.Has) (fun c hc => hextends.has hc)
    (Store.avoids_newTome fun _ hc => hc) keys
  rw [Bool.eq_false_iff]
  intro hholds
  have hreach := Store.reaches_of_holdsWithin hholds
  -- the value reaches in the new store only what it reached before, and all of that was there
  rw [Store.reaches_iff_of_sameAt fun c hc => (hextends.sameAt
    (hs.has_of_reflTransGen hv hc)).trans (hsame c (hs.has_of_reflTransGen hv hc))] at hreach
  exact hend.self (hs.has_of_reflTransGen hv hreach)

/-- A path whose value cannot be stored leaves the machine as it was, or with fresh tomes from the
gap on. -/
theorem run_bindPath_of_error (hm : m.Grounded) (hv : m.store.Has v) {failure : Failure}
    (hfailure : ((bindPath root steps v).run.run m).1 = .error failure) {fault : TypeFault}
    (hfault : failure.fault = .wrongType fault) :
    match (Effect.bindPath root steps v).gap? m.scope m.store with
    | none => ((bindPath root steps v).run.run m).2 = m
    | some (cell, key) => m.Planted cell key ((bindPath root steps v).run.run m).2 := by
  have hopen : m.scope.isSealed root = false := by
    rw [Bool.eq_false_iff]
    intro hsealed
    rw [run_bindPath_of_isSealed hsealed] at hfailure
    cases hfailure
    cases hfault
  by_cases hroot : ∃ first, m.scope.globals.get? root = some (.tome first)
  · obtain ⟨first, hfirst⟩ := hroot
    have hhas : m.store.Has (.tome first) := hm.admits.globals.get? hfirst
    rw [run_bindPath hopen steps v (Machine.rooted_of_tome hfirst) rfl] at hfailure ⊢
    rw [Effect.gap?, hfirst]
    dsimp only
    split at hfailure
    · next hholds =>
      rw [if_pos hholds]
      rcases hdig : m.store.dig first steps.dropLast with ⟨cell, _ | ⟨key, rest⟩⟩
      · rw [Store.delve_eq_of_dig_nil hdig]
        rfl
      · obtain ⟨hentries, hsame, -⟩ := Store.delve_of_dig_cons hm.sound hhas hdig
        have hreach := Store.reaches_dig m.store first steps.dropLast
        rw [hdig] at hreach
        have hfresh : ¬ m.store.Has (m.store.newTome .empty).1 := Store.not_has_newTome
        exact ⟨rfl, rfl, rfl, rfl, hsame, hm.sound.has_of_reflTransGen hhas hreach,
          m.store.tomes.size, hfresh, hentries⟩
    · cases hfailure
  · -- from a fresh tome the walk ends at one that the value cannot hold
    have hnone : ∀ cell, m.scope.globals.get? root ≠ some (.tome cell) :=
      fun cell hcell => hroot ⟨cell, hcell⟩
    have hclear := holds_eq_false_of_fresh hm.sound hv steps.dropLast
    rw [run_bindPath hopen steps v (Machine.rooted_of_not_tome hnone) rfl] at hfailure
    rw [if_neg (Bool.not_eq_true _ ▸ hclear)] at hfailure
    cases hfailure

/-- Of all effects only the binding of a path fails for a type. -/
theorem exists_bindPath_of_error [Host σ] {effect : Effect} {failure : Failure}
    (hfailure : ((perform effect).run.run m).1 = .error failure) {fault : TypeFault}
    (hfault : failure.fault = .wrongType fault) :
    ∃ root steps v, effect = .bindPath root steps v := by
  cases effect with
  | bindPath root steps v => exact ⟨root, steps, v, rfl⟩
  | setItems cell items | setEntries cell entries => cases hfailure
  | bind name v =>
    have hrun : ((bindName name v).run.run m).1 = .error failure := hfailure
    cases hname : m.scope.isSealed name with
    | true =>
      rw [run_bindName_of_isSealed hname] at hrun
      cases hrun
      cases hfault
    | false =>
      rw [run_bindName_of_open hname] at hrun
      cases hrun
  | bindSealed name v =>
    have hrun : ((if m.scope.isSealed name || (m.scope.globals.get? name).any (· ≠ .undefined)
      then fail (.alreadyDefined name) else set _ : Run σ Unit).run.run m).1 = .error failure :=
        hfailure
    split at hrun
    · cases hrun
      cases hfault
    · cases hrun
  | summon path nickname =>
    have hrun : ((summon path nickname).run.run m).1 = .error failure := hfailure
    rw [summon, run_get_bind] at hrun
    split at hrun
    · next other hload =>
      cases hrun
      rw [Registry.eq_of_load_error hload] at hfault
      cases hfault
    · cases hrun
  | ask request =>
    have hrun : ((ask request).run.run m).1 = .error failure := hfailure
    rw [ask, run_get_bind] at hrun
    rcases hanswer : Host.answer request m.host with ⟨other | _, host⟩
    · rw [hanswer] at hrun
      cases hrun
      cases hfault
    · rw [hanswer] at hrun
      cases hrun

end Run

/-! ## Refused lines -/

namespace Machine

variable {σ : Type} [Host σ] {m : Machine σ} {line : Text}

/-- A line fails for a type while it is evaluated, or at a path that it sets. -/
theorem evaluation_fails_or_path {form : Form} {g : Groups} (hidle : line.isIdle = false)
    (hform : Form.find? line = some (form, g)) {failure : Failure}
    (hfailure : ((Run.statement line).run.run m).1 = .error failure) {fault : TypeFault}
    (hfault : failure.fault = .wrongType fault) :
    (∃ m₁, (Run.evaluate (form.effects g)).run.run m = (.error failure, m₁) ∧
        ((Run.statement line).run.run m).2 = m₁) ∨
      ∃ root steps v m₁, (Run.evaluate (form.effects g)).run.run m =
          (.ok [.bindPath root steps v], m₁) ∧
        (Run.statement line).run.run m = (Run.bindPath root steps v).run.run m₁ := by
  rw [Run.run_statement hidle hform] at hfailure ⊢
  rcases heval : (Run.evaluate (form.effects g)).run.run m with ⟨failure' | effects, m₁⟩
  · rw [heval] at hfailure
    cases hfailure
    exact Or.inl ⟨m₁, rfl, rfl⟩
  · rw [heval] at hfailure
    dsimp only at hfailure ⊢
    obtain ⟨hfits, -⟩ := Run.fits_of_evaluate heval
    cases hfits with
    | nothing _ => cases hfailure
    | @one effect _ _ =>
      rw [Run.performAll_singleton] at hfailure ⊢
      obtain ⟨root, steps, v, rfl⟩ := Run.exists_bindPath_of_error hfailure hfault
      exact Or.inr ⟨root, steps, v, m₁, rfl, rfl⟩
    | plucked hform cell head rest =>
      rw [Run.run_performAll_plucked] at hfailure
      have hbind : ((Run.perform (.bind (g.text 2) head)).run.run
        (m₁.withStore (m₁.store.setItems cell rest))).1 = .error failure := hfailure
      obtain ⟨_, _, _, heffect⟩ := Run.exists_bindPath_of_error hbind hfault
      cases heffect

/-- Whatever calls have been made on a fresh machine, a line that fails because a container would be
inside itself leaves the machine as it was, unless it sets a path with a gap. Then the tome at the
gap, which was there before, has a fresh tome under the first key that led to none; every name is
bound as it was, and every other container holds what it held. -/
theorem refused_whole_or_planted {config : Config} {clock : Clock} {host : σ} {calls : List Call}
    (hm : m = afterCalls config clock host calls) {failure : Failure}
    (hfailure : ((Run.statement line).run.run m).1 = .error failure) {user : Text}
    {container : Essence} (hfault : failure.fault = .wrongType (.insideItself user container)) :
    match m.gap? line with
    | none => m.Retains ((Run.statement line).run.run m).2
    | some (cell, key) => m.Planted cell key ((Run.statement line).run.run m).2 ∧
      ¬ m.store.SameAt ((Run.statement line).run.run m).2.store (.tome cell) := by
  have hgrounded : m.Grounded := by
    rw [hm]
    exact grounded_afterCalls config clock host calls
  rcases Run.form_cases line with hformless | ⟨form, g, hidle, hform⟩
  · have hgap : m.gap? line = none := by
      rcases hformless with hidle | hform
      · rw [gap?, if_pos hidle]
      · rw [gap?, hform, Option.bind_none, ite_self]
    rw [hgap, Run.run_statement_of_formless hformless]
    exact .refl m
  · have hgap : m.gap? line = match ((Run.evaluate (form.effects g)).run.run m).1 with
        | .ok [effect] => effect.gap? m.scope m.store
        | _ => none := by
      rw [gap?, hidle, if_neg Bool.false_ne_true, hform, Option.bind_some]
    have hgrown : m.Retains ((Run.evaluate (form.effects g)).run.run m).2 :=
      Run.retains_evaluate hgrounded.admits form.yields_effects
    rw [hgap]
    rcases evaluation_fails_or_path hidle hform hfailure hfault with
      ⟨m₁, heval, hleft⟩ | ⟨root, steps, v, m₁, heval, hrun⟩
    · -- nothing was performed
      rw [heval] at hgrown ⊢
      rw [hleft]
      exact hgrown
    · have hkept := Run.keeps_evaluate (form.yields_effects (g := g)) hgrounded
      rw [heval] at hgrown hkept ⊢
      have hretained : m.Retains m₁ := hgrown
      have hgrounded₁ : m₁.Grounded := hkept.holds
      have hv : m₁.store.Has v := (hkept.result _ rfl).1
      rw [hrun] at hfailure ⊢
      -- the gap is where it was before the value was evaluated
      have hsame : (Effect.bindPath root steps v).gap? m₁.scope m₁.store =
          (Effect.bindPath root steps v).gap? m.scope m.store := by
        rw [hretained.scope]
        exact Effect.gap?_of_extends hgrounded.sound hgrounded.admits.globals
          hretained.grows.store
      have hleft := Run.run_bindPath_of_error hgrounded₁ hv hfailure hfault
      rw [hsame] at hleft
      dsimp only
      cases hplace : (Effect.bindPath root steps v).gap? m.scope m.store with
      | none =>
        rw [hplace] at hleft
        dsimp only at hleft ⊢
        rw [hleft]
        exact hretained
      | some place =>
        rw [hplace] at hleft
        have hhas := Effect.has_of_gap? hgrounded.sound hgrounded.admits.globals hplace
        have hplanted := hretained.planted hhas hleft
        exact ⟨hplanted, hplanted.not_sameAt hgrounded.sound⟩

/-- A machine with a tome of one entry. -/
def hero : Machine Transcript :=
  afterCalls {} default {} [.execute "hero is Tome \x7b hp: 1 \x7d ok".toList]

/-- The tome under `bag` is put there before the line is refused, and it stays. -/
theorem refused_whole_or_planted_hero :
    ((Run.statement "Set hero.bag.owner to hero ok".toList).run.run hero).1 =
        .error { fault := .wrongType (.insideItself "Set".toList .tome) } ∧
      hero.Planted 0 "bag".toList
        ((Run.statement "Set hero.bag.owner to hero ok".toList).run.run hero).2 ∧
      ¬ hero.store.SameAt
        ((Run.statement "Set hero.bag.owner to hero ok".toList).run.run hero).2.store (.tome 0) := by
  have hfailure : ((Run.statement "Set hero.bag.owner to hero ok".toList).run.run hero).1 =
      .error { fault := .wrongType (.insideItself "Set".toList .tome) } := by decide +kernel
  have hgap : hero.gap? "Set hero.bag.owner to hero ok".toList = some (0, "bag".toList) := by
    decide +kernel
  have hleft := refused_whole_or_planted (m := hero) rfl hfailure rfl
  rw [hgap] at hleft
  exact ⟨hfailure, hleft⟩

end Machine

end Grimoire
