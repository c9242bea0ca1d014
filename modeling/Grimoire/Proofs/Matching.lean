import Grimoire.Proofs.Blind.Statements
import Grimoire.Proofs.Grounded

/-!
# Machines that match

A machine serves a registry under a configuration if it knows the libraries of the registry, every
table that it has set up is the one of the library that is known, and every time pattern that it has
prepared is as it would be prepared. Two machines match if they serve the same registry, have the
same names, containers, random numbers and clock, and hosts that stand in a relation which their
answers keep. Only what has been set up and prepared may differ, and no statement and no program can
tell: from machines that match it comes to the same outcome and to machines that match.
-/

namespace Grimoire

/-! ## Registries -/

namespace Registry

/-- Every known library is blind. -/
def Blind (r : Registry) : Prop :=
  ∀ summoned ∈ r.known.values, summoned.library.Blind

theorem Blind.register {r : Registry} (h : r.Blind) {library : Library} (hlibrary : library.Blind) :
    (r.register library).Blind := by
  intro summoned hmem
  rcases Table.mem_values_insert hmem with rfl | hmem
  · exact hlibrary
  · exact h summoned hmem

/-- Libraries made known one after the other. -/
def registerAll (r : Registry) (libraries : List Library) : Registry :=
  libraries.foldl register r

theorem Blind.registerAll {r : Registry} (h : r.Blind) {libraries : List Library}
    (hlibraries : ∀ library ∈ libraries, library.Blind) : (r.registerAll libraries).Blind := by
  induction libraries generalizing r with
  | nil => exact h
  | cons library rest ih =>
    obtain ⟨hlibrary, hrest⟩ := List.forall_mem_cons.1 hlibraries
    exact ih (h.register hlibrary) hrest

theorem blind_standard : standard.Blind := by
  have hempty : empty.Blind := by
    intro summoned hmem
    cases hmem
  exact hempty.registerAll fun library => Library.blind_of_mem_standard

/-- The second registry has the known libraries of the first, and has set up tables of these
alone. -/
structure Serves (origin r : Registry) : Prop where
  known : r.known = origin.known
  editions : r.editions = origin.editions
  loaded : ∀ path summoned, r.loaded.get? path = some summoned →
    origin.known.get? path = some summoned

variable {origin r : Registry}

theorem serves_standard : standard.Serves standard where
  known := rfl
  editions := rfl
  loaded path summoned h := by
    have hempty : standard.loaded = .empty := rfl
    rw [hempty] at h
    cases h

/-- A table is set up anew after its library has been replaced. -/
theorem Serves.register (h : origin.Serves r) (library : Library) :
    (origin.register library).Serves (r.register library) := by
  constructor
  · show r.known.insert library.path ⟨⟨library.path, r.editions⟩, library⟩ = _
    rw [h.known, h.editions]
    rfl
  · show r.editions + 1 = origin.editions + 1
    rw [h.editions]
  · intro path summoned hloaded
    have herase : (r.loaded.erase library.path).get? path = some summoned := hloaded
    rw [Table.get?_erase] at herase
    show (origin.known.insert library.path _).get? path = some summoned
    rw [Table.get?_insert]
    by_cases hpath : path = library.path
    · rw [if_pos hpath] at herase
      cases herase
    · rw [if_neg hpath] at herase
      rw [if_neg hpath]
      exact h.loaded path summoned herase

theorem Serves.registerAll (h : origin.Serves r) (libraries : List Library) :
    (origin.registerAll libraries).Serves (r.registerAll libraries) := by
  induction libraries generalizing origin r with
  | nil => exact h
  | cons library rest ih => exact ih (h.register library)

theorem Serves.load_of_known (h : origin.Serves r) {path : Text} {summoned : Summoned}
    (hknown : origin.known.get? path = some summoned) :
    ∃ r', r.load path = .ok (summoned, r') ∧ origin.Serves r' := by
  unfold load
  cases hloaded : r.loaded.get? path with
  | some found =>
    have hfound : some found = some summoned := (h.loaded path found hloaded).symm.trans hknown
    obtain rfl := Option.some.inj hfound
    exact ⟨r, rfl, h⟩
  | none =>
    rw [h.known, hknown]
    refine ⟨_, rfl, ⟨rfl, h.editions, ?_⟩⟩
    intro path' found hfound
    rw [Table.get?_insert] at hfound
    by_cases hpath : path' = path
    · rw [if_pos hpath] at hfound
      rw [hpath, ← hfound]
      exact hknown
    · rw [if_neg hpath] at hfound
      exact h.loaded path' found hfound

theorem Serves.load_of_unknown (h : origin.Serves r) {path : Text}
    (hunknown : origin.known.get? path = none) : r.load path = .error (.unknownModule path) := by
  unfold load
  cases hloaded : r.loaded.get? path with
  | some found =>
    have hfound := (h.loaded path found hloaded).symm.trans hunknown
    cases hfound
  | none =>
    rw [h.known, hunknown]

end Registry

/-! ## Hosts and machines -/

/-- A relation between hosts that give the same answers, and go on to do so. -/
def Host.Follows {σ σ' : Type} [Host σ] [Host σ'] (H : σ → σ' → Prop) : Prop :=
  ∀ request host host', H host host' →
    (answer request host).1 = (answer request host').1 ∧
      H (answer request host).2 (answer request host').2

namespace Machine

variable {σ σ' : Type}

/-- The machine has a configuration, serves a registry, and its time patterns are prepared as they
should be. -/
structure Serves (config : Config) (origin : Registry) (m : Machine σ) : Prop where
  config : m.config = config
  registry : origin.Serves m.registry
  prepared : TimePattern.Prepared m.resources.timePatterns

/-- The machines serve the same registry and differ at most in what they have set up and prepared,
and in hosts that are related. -/
structure Matches (H : σ → σ' → Prop) (config : Config) (origin : Registry) (m : Machine σ)
    (m' : Machine σ') : Prop where
  left : m.Serves config origin
  right : m'.Serves config origin
  host : H m.host m'.host
  scope : m.scope = m'.scope
  aliases : m.scope.KnowsBlind
  store : m.store = m'.store
  random : m.resources.random = m'.resources.random
  clock : m.resources.clock = m'.resources.clock

variable {H : σ → σ' → Prop} {config : Config} {origin : Registry} {m : Machine σ}
  {m' : Machine σ'}

theorem Matches.resources (h : m.Matches H config origin m') : m.resources.Matches m'.resources where
  store := h.store
  random := h.random
  clock := h.clock
  left := h.left.prepared
  right := h.right.prepared

theorem Matches.withResources (h : m.Matches H config origin m') {r r' : Resources}
    (hr : r.Matches r') : Matches H config origin { m with resources := r }
      { m' with resources := r' } :=
  { h with
    left := { h.left with prepared := hr.left }
    right := { h.right with prepared := hr.right }
    store := hr.store
    random := hr.random
    clock := hr.clock }

theorem Matches.withStore (h : m.Matches H config origin m') (s : Store) :
    (m.withStore s).Matches H config origin (m'.withStore s) :=
  h.withResources ⟨rfl, h.random, h.clock, h.left.prepared, h.right.prepared⟩

theorem Matches.withScope (h : m.Matches H config origin m') {scope : Scope}
    (hscope : scope.KnowsBlind) :
    (m.withScope scope).Matches H config origin (m'.withScope scope) :=
  { h with
    left := { h.left with }
    right := { h.right with }
    scope := rfl
    aliases := hscope }

theorem Matches.withHosts {host : σ} {host' : σ'} (h : m.Matches H config origin m')
    (hhost : H host host') :
    Matches H config origin { m with host } { m' with host := host' } :=
  { h with
    left := { h.left with }
    right := { h.right with }
    host := hhost }

theorem Matches.withRegistries (h : m.Matches H config origin m') {r r' : Registry}
    (hr : origin.Serves r) (hr' : origin.Serves r') :
    Matches H config origin { m with registry := r } { m' with registry := r' } :=
  { h with
    left := { h.left with registry := hr }
    right := { h.right with registry := hr' } }

/-- A reset brings machines together that serve the same registry, whatever was done with them. -/
theorem matches_reset (hm : m.Serves config origin) (hm' : m'.Serves config origin)
    (hhost : H m.host m'.host) (hclock : m.resources.clock = m'.resources.clock) :
    m.reset.Matches H config origin m'.reset where
  left := { hm with }
  right := { hm' with }
  host := hhost
  scope := rfl
  aliases := by
    intro summoned hmem
    cases hmem
  store := rfl
  random := by
    show (⟨m.config.seed⟩ : Xorshift) = ⟨m'.config.seed⟩
    rw [hm.config, hm'.config]
  clock := hclock

end Machine

/-! ## Effects -/

namespace Run

open Machine

variable {σ σ' : Type} {H : σ → σ' → Prop} {config : Config} {origin : Registry} {α : Type}

/-- What cannot tell which patterns are prepared comes to the same on machines that match. -/
theorem related_evaluate {e : Eval α} (he : Eval.Blind e) :
    Related (Matches H config origin) (evaluate e) (evaluate e) := by
  intro m m' hm
  obtain ⟨hresult, hresources⟩ := he m.scope hm.aliases m.resources m'.resources hm.resources
  have hrun : e.run m'.scope = e.run m.scope := by rw [hm.scope]
  rw [run_evaluate, run_evaluate, hrun]
  constructor
  · show Except.mapError _ _ = Except.mapError _ _
    rw [hresult]
  · exact hm.withResources hresources

theorem related_bindName (name : Text) (v : Value) :
    Related (Matches H config origin) (bindName name v) (bindName name v) := by
  apply related_get_bind
  intro m m' hm
  rw [← hm.scope]
  split
  · exact related_throw _
  · exact related_set (hm.withScope hm.aliases)

theorem related_bindSealed (name : Text) (v : Value) :
    Related (Matches H config origin) (bindSealed name v) (bindSealed name v) := by
  apply related_get_bind
  intro m m' hm
  rw [← hm.scope]
  split
  · exact related_throw _
  · exact related_set (hm.withScope hm.aliases)

/-- A library that is summoned is the same whether its table is found or set up. -/
theorem related_summon (horigin : origin.Blind) (path : Text) (nickname : Option Text) :
    Related (Matches H config origin) (summon path nickname) (summon path nickname) := by
  apply related_get_bind
  intro m m' hm
  rw [← hm.scope]
  cases hknown : origin.known.get? path with
  | none =>
    rw [hm.left.registry.load_of_unknown hknown, hm.right.registry.load_of_unknown hknown]
    exact related_throw _
  | some summoned =>
    obtain ⟨r, hload, hr⟩ := hm.left.registry.load_of_known hknown
    obtain ⟨r', hload', hr'⟩ := hm.right.registry.load_of_known hknown
    rw [hload, hload']
    apply related_set
    refine (hm.withRegistries hr hr').withScope ?_
    intro known hmem
    rcases Table.mem_values_insert hmem with rfl | hmem
    · exact horigin known (Table.mem_values_of_get? hknown)
    · exact hm.aliases known hmem

theorem related_setItems (cell : Nat) (items : List Value) :
    Related (Matches H config origin) (setItems cell items) (setItems cell items) := by
  apply related_modify
  intro m m' hm
  rw [← hm.store]
  exact hm.withStore _

theorem related_setEntries (cell : Nat) (entries : Table Value) :
    Related (Matches H config origin) (setEntries cell entries) (setEntries cell entries) := by
  apply related_modify
  intro m m' hm
  rw [← hm.store]
  exact hm.withStore _

theorem related_newTomeCell :
    Related (Matches H config origin) newTomeCell newTomeCell := by
  apply related_get_bind
  intro m m' hm
  rw [← hm.store]
  exact (related_set (hm.withStore _)).bind fun _ => related_pure _

theorem related_rootTome (name : Text) :
    Related (Matches H config origin) (rootTome name) (rootTome name) := by
  apply related_get_bind
  intro m m' hm
  rw [← hm.scope]
  split
  · exact related_pure _
  · apply related_newTomeCell.bind
    intro cell
    exact (related_bindName name _).bind fun _ => related_pure _

theorem related_innerTome (cell : Nat) (key : Text) :
    Related (Matches H config origin) (innerTome cell key) (innerTome cell key) := by
  apply related_get_bind
  intro m m' hm
  rw [← hm.store]
  dsimp only
  split
  · exact related_pure _
  · apply related_newTomeCell.bind
    intro inner
    exact (related_setEntries cell _).bind fun _ => related_pure _

theorem related_innerTomes (steps : List Text) (cell : Nat) :
    Related (Matches H config origin) (steps.foldlM innerTome cell)
      (steps.foldlM innerTome cell) := by
  induction steps generalizing cell with
  | nil => exact related_pure _
  | cons key rest ih =>
    rw [List.foldlM_cons, List.foldlM_cons]
    exact (related_innerTome cell key).bind fun inner => ih inner

theorem related_bindPath (root : Text) (steps : List Text) (v : Value) :
    Related (Matches H config origin) (bindPath root steps v) (bindPath root steps v) := by
  apply related_get_bind
  intro m m' hm
  rw [← hm.scope]
  dsimp only
  split
  · exact related_throw_bind _
  · apply (related_rootTome root).bind
    intro cell
    apply (related_innerTomes _ cell).bind
    intro inner
    apply related_get_bind
    intro m₁ m₁' hm₁
    rw [← hm₁.store]
    split
    · exact related_throw_bind _
    · exact related_setEntries _ _

variable [Host σ] [Host σ']

theorem related_ask (hH : Host.Follows H) (request : Request) :
    Related (Matches H config origin) (ask request) (ask request) := by
  apply related_get_bind
  intro m m' hm
  obtain ⟨hanswer, hhost⟩ := hH request m.host m'.host hm.host
  revert hanswer hhost
  rcases Host.answer request m.host with ⟨answer, host⟩
  rcases Host.answer request m'.host with ⟨answer', host'⟩
  rintro rfl hhost
  apply (related_set (hm.withHosts hhost)).bind
  intro _
  cases answer with
  | ok _ => exact related_pure _
  | error fault => exact related_throw _

theorem related_perform (hH : Host.Follows H) (horigin : origin.Blind) (effect : Effect) :
    Related (Matches H config origin) (perform effect) (perform effect) := by
  cases effect with
  | bind name v => exact related_bindName name v
  | bindSealed name v => exact related_bindSealed name v
  | bindPath root steps v => exact related_bindPath root steps v
  | summon path nickname => exact related_summon horigin path nickname
  | setItems cell items => exact related_setItems cell items
  | setEntries cell entries => exact related_setEntries cell entries
  | ask request => exact related_ask hH request

theorem related_performAll (hH : Host.Follows H) (horigin : origin.Blind)
    (effects : List Effect) :
    Related (Matches H config origin) (performAll effects) (performAll effects) := by
  induction effects with
  | nil => exact related_pure _
  | cons effect rest ih => exact (related_perform hH horigin effect).bind fun _ => ih

/-- No statement can tell machines that match. -/
theorem related_statement (hH : Host.Follows H) (horigin : origin.Blind) (line : Text) :
    Related (Matches H config origin) (statement line) (statement line) := by
  rw [statement, statement]
  split
  · exact related_pure _
  · split
    · next form g _ =>
      exact (related_evaluate (form.blind_effects g)).bind fun effects =>
        related_performAll hH horigin effects
    · exact related_throw _

end Run

/-! ## Programs -/

namespace Program

open Machine

variable {σ σ' : Type} [Host σ] [Host σ'] {H : σ → σ' → Prop} {config : Config} {origin : Registry}

theorem blind_iterationOf (loop : String) (container : Text) :
    Eval.Blind (iterationOf loop container) := by
  apply (Eval.blind_value container).bind
  intro v
  cases v with
  | string text => exact Eval.blind_pure _
  | sequence cell => exact Eval.blind_store.bind fun _ => Eval.blind_pure _
  | _ => exact Eval.blind_failType _

theorem relates_matches (hH : Host.Follows H) (horigin : origin.Blind) :
    Relates (Matches H config origin) where
  config _ _ hm := hm.left.config.trans hm.right.config.symm
  statement line := Run.related_statement hH horigin line
  condition text := Run.related_evaluate (Eval.blind_holds text)
  container loop text := Run.related_evaluate (blind_iterationOf loop text)
  binding name v := Run.related_bindName name v

/-- A run of a source resets the machines first: it suffices that they serve the same registry and
have the same clock. -/
theorem interpret_of_serves (hH : Host.Follows H) (horigin : origin.Blind) {m : Machine σ}
    {m' : Machine σ'} (hm : m.Serves config origin) (hm' : m'.Serves config origin)
    (hhost : H m.host m'.host) (hclock : m.resources.clock = m'.resources.clock) (source : Text) :
    ((interpret source).run.run m).1 = ((interpret source).run.run m').1 ∧
      Matches H config origin ((interpret source).run.run m).2
        ((interpret source).run.run m').2 :=
  related_runNodes (relates_matches hH horigin) (ofSource source) 0 m.reset m'.reset
    (matches_reset hm hm' hhost hclock)

end Program

end Grimoire
