import Grimoire.Config
import Grimoire.Statement

/-!
# The machine

A machine is all that a run changes: the names, the resources, the registry of libraries and the
host, under a configuration that stays. `Run` is a computation on a machine that may fail. What it
did before failing remains.
-/

namespace Grimoire

/-- The state of a run. -/
structure Machine (σ : Type) where
  config : Config
  host : σ
  scope : Scope
  registry : Registry
  resources : Resources

namespace Machine

variable {σ : Type}

/-- A machine on which nothing has run. -/
def fresh (config : Config) (registry : Registry) (clock : Clock) (host : σ) : Machine σ where
  config := config
  host := host
  scope := {}
  registry := registry
  resources := ⟨{}, ⟨config.seed⟩, .empty, clock⟩

/-- Forgets the last run: names, containers and the place in the random stream. What is kept, the
tables of libraries and the prepared time patterns, only saves work. -/
def reset (m : Machine σ) : Machine σ :=
  { m with
    scope := {}
    resources := { m.resources with store := {}, random := ⟨m.config.seed⟩ } }

/-- The machine with another scope. -/
def withScope (m : Machine σ) (scope : Scope) : Machine σ :=
  { m with scope }

/-- The machine with another store. -/
def withStore (m : Machine σ) (store : Store) : Machine σ :=
  { m with resources := { m.resources with store } }

/-- The store of a machine. -/
def store (m : Machine σ) : Store :=
  m.resources.store

end Machine

/-- A computation on a machine that may fail. -/
abbrev Run (σ : Type) := ExceptT Failure (StateM (Machine σ))

namespace Run

variable {σ : Type}

/-- Fails at no line in particular. -/
def fail {α : Type} (fault : Fault) : Run σ α :=
  throw { fault }

/-- Names the line at which a computation fails, unless the failure is located already. -/
def located {α : Type} (place : Place) (run : Run σ α) : Run σ α :=
  tryCatch run fun failure => throw (failure.locate place)

/-- Evaluates in the scope of the machine. -/
def evaluate {α : Type} (e : Eval α) : Run σ α := fun m =>
  let (outcome, resources) := ((e.run m.scope).run.run m.resources : Except Fault α × Resources)
  (outcome.mapError fun fault => { fault }, { m with resources })

/-! ## Names -/

/-- Binds a global name, which may not be sealed. -/
def bindName (name : Text) (v : Value) : Run σ Unit := do
  let m ← get
  if m.scope.isSealed name then fail (.sealedVariable name)
  else set (m.withScope { m.scope with globals := m.scope.globals.insert name v })

/-- Binds a global name and seals it. A name with a value other than undefined is taken. -/
def bindSealed (name : Text) (v : Value) : Run σ Unit := do
  let m ← get
  if m.scope.isSealed name || (m.scope.globals.get? name).any (· ≠ .undefined) then
    fail (.alreadyDefined name)
  else
    set (m.withScope
      { m.scope with
        globals := m.scope.globals.insert name v
        sealedNames := name :: m.scope.sealedNames })

/-- Makes a library known under an alias. -/
def summon (path : Text) (nickname : Option Text) : Run σ Unit := do
  let m ← get
  match m.registry.load path with
  | .error fault => fail fault
  | .ok (summoned, registry) =>
    let aliases := m.scope.aliases.insert (nickname.getD (defaultAlias path)) summoned
    set { m with registry, scope := { m.scope with aliases } }

/-! ## Containers -/

/-- Replaces the elements of an array. -/
def setItems (cell : Nat) (items : List Value) : Run σ Unit :=
  modify fun m => m.withStore (m.store.setItems cell items)

/-- Replaces the entries of a tome. -/
def setEntries (cell : Nat) (entries : Table Value) : Run σ Unit :=
  modify fun m => m.withStore (m.store.setEntries cell entries)

/-- The cell of a fresh tome without entries. -/
def newTomeCell : Run σ Nat := do
  let m ← get
  set (m.withStore (m.store.newTome .empty).2)
  return m.store.tomes.size

/-- The tome of a global name, which is bound to a fresh one if it has none. -/
def rootTome (name : Text) : Run σ Nat := do
  match (← get).scope.globals.get? name with
  | some (.tome cell) => return cell
  | _ =>
    let cell ← newTomeCell
    bindName name (.tome cell)
    return cell

/-- The tome under a key of a tome, put there fresh if there is none. -/
def innerTome (cell : Nat) (key : Text) : Run σ Nat := do
  let entries := (← get).store.entries cell
  match entries.get? key with
  | some (.tome inner) => return inner
  | _ =>
    let inner ← newTomeCell
    setEntries cell (entries.insert key (.tome inner))
    return inner

/-- Sets the entry at the end of a path from a global name. Tomes that are missing on the way are
made; they stay even if the value cannot be stored because it holds the last of them. -/
def bindPath (root : Text) (steps : List Text) (v : Value) : Run σ Unit := do
  if (← get).scope.isSealed root then fail (.sealedVariable root)
  let cell ← steps.dropLast.foldlM innerTome (← rootTome root)
  let s := (← get).store
  if s.holds v (.tome cell) then fail (.wrongType (.insideItself "Set".toList .tome))
  setEntries cell ((s.entries cell).insert (steps.getLast?.getD []) v)

/-! ## Statements -/

/-- Asks something of the host. -/
def ask [Host σ] (request : Request) : Run σ Unit := do
  let m ← get
  let (answer, host) := Host.answer request m.host
  set { m with host }
  match answer with
  | .ok () => return ()
  | .error fault => fail (.host fault)

/-- Performs an effect. -/
def perform [Host σ] : Effect → Run σ Unit
  | .bind name v => bindName name v
  | .bindSealed name v => bindSealed name v
  | .bindPath root steps v => bindPath root steps v
  | .summon path nickname => summon path nickname
  | .setItems cell items => setItems cell items
  | .setEntries cell entries => setEntries cell entries
  | .ask request => ask request

/-- Performs effects one after the other. -/
def performAll [Host σ] : List Effect → Run σ Unit
  | [] => return ()
  | effect :: rest => do
    perform effect
    performAll rest

/-- Runs a line that is no part of a block. -/
def statement [Host σ] (line : Text) : Run σ Unit := do
  if line.isIdle then return ()
  else match Form.find? line with
    | some (form, g) => performAll (← evaluate (form.effects g))
    | none => fail (.unknownStatement line.trim)

end Run

end Grimoire
