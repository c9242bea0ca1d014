import Grimoire.Proofs.Grounded
import Grimoire.Proofs.Tolls.Statements

/-!
# What runs take of the random stream

The effects of statements take nothing, so a statement takes what its evaluation takes, and
programs take what the statements, conditions and containers take that they come across. This holds
of machines that know and can load standard libraries only, and such they remain. So the account of
all calls on a fresh machine tells where its random stream is.
-/

namespace Grimoire

variable {σ : Type}

/-! ## Standard libraries only -/

/-- All libraries of a registry are standard. -/
structure Registry.Standard (r : Registry) : Prop where
  known : ∀ summoned ∈ r.known.values, summoned.library ∈ Library.standard
  loaded : ∀ summoned ∈ r.loaded.values, summoned.library ∈ Library.standard

namespace Registry

variable {r : Registry}

theorem Standard.register (h : r.Standard) {library : Library}
    (hlibrary : library ∈ Library.standard) : (r.register library).Standard where
  known summoned hmem := by
    rcases Table.mem_values_insert hmem with rfl | hold
    · exact hlibrary
    · exact h.known summoned hold
  loaded summoned hmem := h.loaded summoned (Table.mem_values_erase hmem)

theorem standard_standard : standard.Standard := by
  have hall : ∀ libraries ⊆ Library.standard, ∀ r : Registry, r.Standard →
      (libraries.foldl Registry.register r).Standard := by
    intro libraries
    induction libraries with
    | nil => exact fun _ _ h => h
    | cons library rest ih =>
      intro hsub r h
      rw [List.cons_subset] at hsub
      exact ih hsub.2 _ (h.register hsub.1)
  refine hall Library.standard (List.Subset.refl _) empty ⟨?_, ?_⟩ <;>
    exact fun summoned h => by simp [empty] at h

/-- What is loaded was known or loaded before. -/
theorem Standard.load (h : r.Standard) {path : Text} {summoned : Summoned} {r' : Registry}
    (hload : r.load path = .ok (summoned, r')) :
    summoned.library ∈ Library.standard ∧ r'.Standard := by
  unfold Registry.load at hload
  split at hload
  · next found hfound =>
    cases hload
    exact ⟨h.loaded summoned (Table.mem_values_of_get? hfound), h⟩
  · split at hload
    · next found hfound =>
      cases hload
      have hsummoned := h.known summoned (Table.mem_values_of_get? hfound)
      refine ⟨hsummoned, h.known, fun other hother => ?_⟩
      rcases Table.mem_values_insert hother with rfl | hold
      · exact hsummoned
      · exact h.loaded other hold
    · cases hload

end Registry

/-- The machine knows and can load standard libraries only. -/
structure Machine.Standard (m : Machine σ) : Prop where
  scope : m.scope.KnowsStandard
  registry : m.registry.Standard

/-! ## Runs -/

namespace Run

variable {α β : Type} {m : Machine σ} {tolls : List Toll}

/-- Started on a machine with standard libraries only, the run takes the tolls and leaves such a
machine. -/
def Pays (m : Machine σ) (run : Run σ α) (tolls : List Toll) : Prop :=
  m.Standard →
    (run.run.run m).2.Standard ∧ (run.run.run m).2.stream = Toll.settle tolls m.stream

theorem pays_pure (a : α) : Pays m (pure a) [] :=
  fun hm => ⟨hm, rfl⟩

theorem pays_fail (fault : Fault) : Pays m (fail fault : Run σ α) [] :=
  fun hm => ⟨hm, rfl⟩

theorem Pays.bind {run : Run σ α} {f : α → Run σ β} {due : α → Machine σ → List Toll}
    (h : Pays m run tolls) (hf : ∀ a m', Pays m' (f a) (due a m')) :
    Pays m (run >>= f) (tolls ++ dueAfter run due m) := by
  intro hm
  obtain ⟨hstandard, hstream⟩ := h hm
  rw [run_bind, Toll.settle_append, ← hstream]
  rcases hrun : run.run.run m with ⟨failure | a, m'⟩
  · rw [hrun] at hstandard
    rw [dueAfter_of_error hrun]
    exact ⟨hstandard, rfl⟩
  · rw [hrun] at hstandard
    rw [dueAfter_of_ok hrun]
    exact hf a m' hstandard

/-- What takes nothing may follow. -/
theorem Pays.bind_free {run : Run σ α} {f : α → Run σ β} (h : Pays m run tolls)
    (hf : ∀ a m', Pays m' (f a) []) : Pays m (run >>= f) tolls := by
  have hpays := Pays.bind h hf
  rwa [dueAfter_nothing, List.append_nil] at hpays

theorem pays_get_bind {f : Machine σ → Run σ β} (h : Pays m (f m) tolls) :
    Pays m (get >>= f) tolls := h

theorem pays_set {m' : Machine σ} (h : m.Standard → m'.Standard) (hstream : m'.stream = m.stream) :
    Pays m (set m' : Run σ Unit) [] :=
  fun hm => ⟨h hm, hstream⟩

theorem Pays.located {run : Run σ α} (h : Pays m run tolls) (place : Place) :
    Pays m (located place run) tolls := by
  have hmachine : ((Run.located place run).run.run m).2 = (run.run.run m).2 :=
    (alike_located place run).machine m
  unfold Pays
  rw [hmachine]
  exact h

theorem pays_evaluate {e : Eval α} {t : Tariff} (h : e.Pays t) :
    Pays m (evaluate e) (t m.scope m.resources) :=
  fun hm => ⟨⟨hm.scope, hm.registry⟩, h m.scope hm.scope m.resources⟩

/-! ### Effects -/

theorem pays_bindName (name : Text) (v : Value) : Pays m (bindName name v) [] := by
  apply pays_get_bind
  split
  · exact pays_fail _
  · exact pays_set (fun hm => ⟨hm.scope, hm.registry⟩) rfl

theorem pays_bindSealed (name : Text) (v : Value) : Pays m (bindSealed name v) [] := by
  apply pays_get_bind
  split
  · exact pays_fail _
  · exact pays_set (fun hm => ⟨hm.scope, hm.registry⟩) rfl

theorem pays_summon (path : Text) (nickname : Option Text) : Pays m (summon path nickname) [] := by
  apply pays_get_bind
  split
  · exact pays_fail _
  · next summoned registry hload =>
    refine pays_set (fun hm => ⟨fun other hother => ?_, (hm.registry.load hload).2⟩) rfl
    rcases Table.mem_values_insert hother with rfl | hold
    · exact (hm.registry.load hload).1
    · exact hm.scope other hold

theorem pays_setItems (cell : Nat) (items : List Value) : Pays m (setItems cell items) [] :=
  fun hm => ⟨⟨hm.scope, hm.registry⟩, rfl⟩

theorem pays_setEntries (cell : Nat) (entries : Table Value) :
    Pays m (setEntries cell entries) [] :=
  fun hm => ⟨⟨hm.scope, hm.registry⟩, rfl⟩

theorem pays_newTomeCell : Pays m (newTomeCell : Run σ Nat) [] :=
  fun hm => ⟨⟨hm.scope, hm.registry⟩, rfl⟩

theorem pays_rootTome (name : Text) : Pays m (rootTome name) [] := by
  apply pays_get_bind
  split
  · exact pays_pure _
  · apply pays_newTomeCell.bind_free
    intro cell m₁
    exact (pays_bindName name _).bind_free fun _ _ => pays_pure _

theorem pays_innerTome (cell : Nat) (key : Text) : Pays m (innerTome cell key) [] := by
  apply pays_get_bind
  dsimp only
  split
  · exact pays_pure _
  · apply pays_newTomeCell.bind_free
    intro inner m₁
    exact (pays_setEntries cell _).bind_free fun _ _ => pays_pure _

theorem pays_innerTomes (cell : Nat) (keys : List Text) :
    Pays m (keys.foldlM innerTome cell) [] := by
  induction keys generalizing cell m with
  | nil => exact pays_pure cell
  | cons key rest ih =>
    rw [List.foldlM_cons]
    exact (pays_innerTome cell key).bind_free fun inner _ => ih inner

/-- What comes after a failure takes nothing. -/
theorem pays_fail_bind {fault : Fault} {f : β → Run σ α} : Pays m (fail fault >>= f) [] :=
  fun hm => ⟨hm, rfl⟩

theorem pays_bindPath (root : Text) (steps : List Text) (v : Value) :
    Pays m (bindPath root steps v) [] := by
  apply pays_get_bind
  split
  · exact pays_fail_bind
  · apply (pays_rootTome root).bind_free
    intro first m₁
    apply (pays_innerTomes first steps.dropLast).bind_free
    intro cell m₂
    apply pays_get_bind
    dsimp only
    split
    · exact pays_fail_bind
    · exact pays_setEntries cell _

theorem pays_ask [Host σ] (request : Request) : Pays m (ask request) [] := by
  apply pays_get_bind
  rcases Host.answer request m.host with ⟨answer, host⟩
  have hset : Pays m (set { m with host }) [] :=
    pays_set (fun hm => ⟨hm.scope, hm.registry⟩) rfl
  apply hset.bind_free
  intro _ m₁
  cases answer with
  | ok _ => exact pays_pure _
  | error fault => exact pays_fail _

theorem pays_perform [Host σ] (effect : Effect) : Pays m (perform effect) [] := by
  cases effect with
  | bind name v => exact pays_bindName name v
  | bindSealed name v => exact pays_bindSealed name v
  | bindPath root steps v => exact pays_bindPath root steps v
  | summon path nickname => exact pays_summon path nickname
  | setItems cell items => exact pays_setItems cell items
  | setEntries cell entries => exact pays_setEntries cell entries
  | ask request => exact pays_ask request

theorem pays_performAll [Host σ] (effects : List Effect) : Pays m (performAll effects) [] := by
  induction effects generalizing m with
  | nil => exact pays_pure _
  | cons effect rest ih => exact (pays_perform effect).bind_free fun _ _ => ih

end Run

/-- What is due for a line that is no part of a block. -/
def Tariff.statement (line : Text) : Tariff :=
  if line.isIdle then free
  else match Form.find? line with
    | some (form, g) => effects form g
    | none => free

/-- A statement takes what its evaluation takes. -/
theorem Run.pays_statement [Host σ] (line : Text) (m : Machine σ) :
    Pays m (Run.statement line) (Tariff.statement line m.scope m.resources) := by
  unfold Run.statement Tariff.statement
  split
  · exact pays_pure _
  · cases Form.find? line with
    | none => exact pays_fail _
    | some found =>
      exact (pays_evaluate (found.1.pays_effects found.2)).bind_free fun effects m₁ =>
        pays_performAll effects

/-! ## Programs -/

/-- What is due for a run, by the machine that it starts on. -/
abbrev Levy (σ : Type) := Machine σ → List Toll

namespace Levy

/-- What is due for a condition. -/
def holds (condition : Text) : Levy σ := fun m =>
  Tariff.holds condition m.scope m.resources

/-- What is due for the container of a loop. -/
def container (text : Text) : Levy σ := fun m =>
  Tariff.value text m.scope m.resources

/-- What is due for a body that is run for each element. -/
def repeatEach (name : Text) (body : Run σ Unit) (due : Levy σ) : List Value → Levy σ
  | [], _ => []
  | v :: rest, m => dueAfter (Run.bindName name v) (fun _ m₁ =>
      due m₁ ++ dueAfter body (fun _ => repeatEach name body due rest) m₁) m

/-- What is due for a body that is run for each element and its place. -/
def stride (index name : Text) (body : Run σ Unit) (due : Levy σ) (place : Nat) :
    List Value → Levy σ
  | [], _ => []
  | v :: rest, m => dueAfter (Run.bindName index (.number (Number.ofNat place))) (fun _ =>
      dueAfter (Run.bindName name v) fun _ m₂ =>
        due m₂ ++ dueAfter body (fun _ => stride index name body due (place + 1) rest) m₂) m

/-- What is due for a body that is run until a condition holds. -/
def untilHolds (condition : Text) (body : Run σ Unit) (due : Levy σ) : Nat → Levy σ
  | 0, _ => []
  | rounds + 1, m => due m ++ dueAfter body (fun _ m₁ =>
      holds condition m₁ ++ dueAfter (Run.evaluate (Eval.holds condition)) (fun held m₂ =>
        if held then [] else untilHolds condition body due rounds m₂) m₁) m

/-- What is due for a construct, given how its body runs and what is due for its parts. -/
def construct (body : Run σ Unit) (bodyDue otherwiseDue : Levy σ) : Construct → Levy σ
  | .when condition, m | .ward condition, m =>
    holds condition m ++ dueAfter (Run.evaluate (Eval.holds condition)) (fun held m₁ =>
      if held then bodyDue m₁ else otherwiseDue m₁) m
  | .repeatEach name text, m =>
    container text m ++ dueAfter (Run.evaluate (Program.iterationOf "repeat each" text))
      (repeatEach name body bodyDue) m
  | .stride index name text, m =>
    container text m ++ dueAfter (Run.evaluate (Program.iterationOf "stride" text))
      (stride index name body bodyDue 0) m
  | .until condition, m => untilHolds condition body bodyDue (max m.config.untilLimit 1) m

mutual

/-- What is due for a part of a program inside `depth` blocks. -/
def node [Host σ] (depth : Nat) : Node → Levy σ
  | .statement place, m => Tariff.statement place.text m.scope m.resources
  | .block _ c body otherwise, m =>
    if m.config.maxNesting < depth + 1 then []
    else construct (Program.runNodes (depth + 1) body) (nodes (depth + 1) body)
      (nodes (depth + 1) otherwise) c m
  | .unterminated _, _ => []

/-- What is due for parts of a program one after the other. -/
def nodes [Host σ] (depth : Nat) : List Node → Levy σ
  | [], _ => []
  | part :: rest, m =>
    node depth part m ++ dueAfter (Program.runNode depth part) (fun _ => nodes depth rest) m

end

end Levy

namespace Program

open Run

variable {body otherwise : Run σ Unit} {bodyDue otherwiseDue : Levy σ} {m : Machine σ}

theorem pays_holds (condition : Text) :
    Pays m (evaluate (Eval.holds condition)) (Levy.holds condition m) :=
  pays_evaluate (Eval.pays_holds condition)

theorem pays_iterationOf (loop : String) (text : Text) :
    Pays m (evaluate (iterationOf loop text)) (Levy.container text m) := by
  apply pays_evaluate
  apply (Eval.pays_value text).bind_still
  intro v
  cases v with
  | string text => exact Eval.still_pure _
  | sequence cell => exact Eval.still_store.bind fun _ => Eval.still_pure _
  | _ => exact Eval.still_fail _

/-- Nothing is due for a block that is too deep. -/
theorem pays_refuseDepth_bind {run : Run σ Unit} {tolls : List Toll} (h : Pays m run tolls)
    (depth : Nat) : Pays m (refuseDepth depth >>= fun _ => run)
      (if m.config.maxNesting < depth then [] else tolls) := by
  unfold refuseDepth
  rw [bind_assoc]
  apply pays_get_bind
  dsimp only
  split
  · exact pays_fail_bind
  · exact h

theorem pays_repeatEach (hbody : ∀ m, Pays m body (bodyDue m)) (name : Text)
    (elements : List Value) :
    Pays m (repeatEach name body elements) (Levy.repeatEach name body bodyDue elements m) := by
  -- the account of the rest starts from the machine that the body has left, so `m` varies
  induction elements generalizing m with
  | nil => exact pays_pure _
  | cons v rest ih =>
    apply (pays_bindName name v).bind
    intro _ m₁
    exact (hbody m₁).bind fun _ m₂ => ih

theorem pays_stride (hbody : ∀ m, Pays m body (bodyDue m)) (index name : Text) (place : Nat)
    (elements : List Value) :
    Pays m (stride index name body place elements)
      (Levy.stride index name body bodyDue place elements m) := by
  induction elements generalizing m place with
  | nil => exact pays_pure _
  | cons v rest ih =>
    apply (pays_bindName index _).bind
    intro _ m₁
    apply (pays_bindName name v).bind
    intro _ m₂
    exact (hbody m₂).bind fun _ m₃ => ih (place + 1)

theorem pays_untilHolds (hbody : ∀ m, Pays m body (bodyDue m)) (condition : Text)
    (limit rounds : Nat) :
    Pays m (untilHolds condition body limit rounds)
      (Levy.untilHolds condition body bodyDue rounds m) := by
  induction rounds generalizing m with
  | zero => exact pays_fail _
  | succ rounds ih =>
    apply (hbody m).bind
    intro _ m₁
    apply (pays_holds condition).bind
    intro held m₂
    cases held with
    | true => exact pays_pure _
    | false => exact ih

/-- A construct takes what is due for it if its parts do. -/
theorem pays_construct (hbody : ∀ m, Pays m body (bodyDue m))
    (hotherwise : ∀ m, Pays m otherwise (otherwiseDue m)) (c : Construct) :
    Pays m (construct body otherwise c) (Levy.construct body bodyDue otherwiseDue c m) := by
  cases c with
  | when condition | ward condition =>
    apply (pays_holds condition).bind
    intro held m₁
    cases held with
    | true => exact hbody m₁
    | false => exact hotherwise m₁
  | repeatEach name text =>
    exact (pays_iterationOf _ text).bind fun elements m₁ => pays_repeatEach hbody name elements
  | stride index name text =>
    exact (pays_iterationOf _ text).bind fun elements m₁ => pays_stride hbody index name 0 elements
  | «until» condition => exact pays_get_bind (pays_untilHolds hbody condition _ _)

variable [Host σ]

mutual

theorem pays_runNode : ∀ (part : Node) (depth : Nat) (m : Machine σ),
    Pays m (runNode depth part) (Levy.node depth part m)
  | .statement place, depth, m => by
    rw [runNode, Levy.node]
    exact (pays_statement place.text m).located place
  | .block place c body otherwise, depth, m => by
    rw [runNode, Levy.node]
    apply Pays.located
    exact pays_refuseDepth_bind (pays_construct (fun m => pays_runNodes body (depth + 1) m)
      (fun m => pays_runNodes otherwise (depth + 1) m) c) (depth + 1)
  | .unterminated line, depth, m => by
    rw [runNode, Levy.node]
    exact pays_fail _

/-- A program takes what is due, also when it fails. -/
theorem pays_runNodes : ∀ (parts : List Node) (depth : Nat) (m : Machine σ),
    Pays m (runNodes depth parts) (Levy.nodes depth parts m)
  | [], depth, m => by
    rw [runNodes, Levy.nodes]
    exact pays_pure _
  | part :: rest, depth, m => by
    rw [runNodes, Levy.nodes]
    exact (pays_runNode part depth m).bind fun _ m₁ => pays_runNodes rest depth m₁

end

end Program

/-! ## Calls -/

namespace Levy

variable [Host σ]

/-- What is due for a call. -/
def call : Call → Levy σ
  | .interpret source, m => .seed m.config.seed :: nodes 0 (Program.ofSource source) m.reset
  | .execute line, m => Tariff.statement line m.scope m.resources
  | .evaluate text, m => Tariff.value text m.scope m.resources
  | .condition text, m => holds text m
  | .reset, m => [.seed m.config.seed]
  | .wait _, _ => []

/-- What is due for calls one after the other. -/
def calls : List Call → Levy σ
  | [], _ => []
  | c :: rest, m => call c m ++ calls rest (m.call c)

end Levy

namespace Machine

variable {m : Machine σ}

theorem standard_fresh (config : Config) (clock : Clock) (host : σ) :
    (fresh config .standard clock host).Standard where
  scope summoned h := by simp [fresh] at h
  registry := Registry.standard_standard

theorem Standard.reset (h : m.Standard) : m.reset.Standard where
  scope summoned hmem := by simp [Machine.reset] at hmem
  registry := h.registry

variable [Host σ]

/-- A call takes what is due and leaves standard libraries only. -/
theorem Standard.call (h : m.Standard) (c : Call) :
    (m.call c).Standard ∧ (m.call c).stream = Toll.settle (Levy.call c m) m.stream := by
  cases c with
  | interpret source =>
    exact Program.pays_runNodes (Program.ofSource source) 0 m.reset h.reset
  | execute line => exact Run.pays_statement line m h
  | evaluate text => exact Run.pays_evaluate (Eval.pays_value text) h
  | condition text => exact Run.pays_evaluate (Eval.pays_holds text) h
  | reset => exact ⟨h.reset, rfl⟩
  | wait clock => exact ⟨⟨h.scope, h.registry⟩, rfl⟩

theorem Standard.calls (h : m.Standard) (calls : List Call) :
    (calls.foldl Machine.call m).Standard ∧
      (calls.foldl Machine.call m).stream = Toll.settle (Levy.calls calls m) m.stream := by
  induction calls generalizing m with
  | nil => exact ⟨h, rfl⟩
  | cons c rest ih =>
    obtain ⟨hstandard, hstream⟩ := h.call c
    rw [List.foldl_cons, Levy.calls, Toll.settle_append, ← hstream]
    exact ih hstandard

end Machine

end Grimoire
