import Grimoire.Proofs.Matching

/-!
# No state leaks from one run into the next

A machine keeps the tables that it has set up and the time patterns that it has prepared, also when
a source is run on it anew. Whatever was done with a machine before, running a source is observed
just as on a fresh machine with the same libraries, at the same time and before a host that answers
alike: it has the same outcome, makes the same requests and leaves the same names, containers and
random numbers.
-/

namespace Grimoire

/-! ## Hosts that answer alike -/

namespace Host

variable {σ σ' : Type} [Host σ] [Host σ']

/-- The answers of a host to requests made one after the other. -/
def answers : List Request → σ → List (Except HostFault Unit)
  | [], _ => []
  | request :: rest, host => (answer request host).1 :: answers rest (answer request host).2

/-- Hosts that answer alike, whatever they are asked. -/
def Alike (host : σ) (host' : σ') : Prop :=
  ∀ requests, answers requests host = answers requests host'

theorem follows_eq : Follows (Eq : σ → σ → Prop) := by
  rintro request host _ rfl
  exact ⟨rfl, rfl⟩

theorem follows_alike : Follows (Alike : σ → σ' → Prop) := by
  intro request host host' h
  constructor
  · exact (List.cons.inj (h [request])).1
  · intro requests
    exact (List.cons.inj (h (request :: requests))).2

end Host

/-- A transcript grants every request. -/
theorem Transcript.alike (t t' : Transcript) : Host.Alike t t' := by
  intro requests
  induction requests generalizing t t' with
  | nil => rfl
  | cons request rest ih => exact congrArg (List.cons (.ok ())) (ih (t.record request) (t'.record request))

/-- A host together with the requests that are made of it. -/
structure Recorder (σ : Type) where
  host : σ
  requests : List Request

namespace Recorder

variable {σ σ' : Type} [Host σ] [Host σ']

instance : Host (Recorder σ) where
  answer request r :=
    ((Host.answer request r.host).1,
      ⟨(Host.answer request r.host).2, r.requests ++ [request]⟩)

/-- A recorder answers as its host does. -/
theorem follows_host : Host.Follows fun (host : σ) (r : Recorder σ) => host = r.host := by
  rintro request _ r rfl
  exact ⟨rfl, rfl⟩

/-- The same requests were made, and the hosts will answer alike. -/
def Agrees (r : Recorder σ) (r' : Recorder σ') : Prop :=
  r.requests = r'.requests ∧ Host.Alike r.host r'.host

theorem follows_agrees : Host.Follows (Agrees : Recorder σ → Recorder σ' → Prop) := by
  rintro request r r' ⟨hrequests, hhost⟩
  obtain ⟨hanswer, hnext⟩ := Host.follows_alike request r.host r'.host hhost
  refine ⟨hanswer, ?_, hnext⟩
  show r.requests ++ [request] = r'.requests ++ [request]
  rw [hrequests]

end Recorder

/-! ## What is observed of a run -/

/-- What can be observed of a run of a source: how it ends, what it asks of the host, and the names,
containers and random numbers that it leaves. -/
structure Observation where
  outcome : Except Failure Unit
  requests : List Request
  /-- Every variable with its value, the sealed names and the aliases. -/
  scope : Scope
  store : Store
  random : Xorshift

namespace Machine

variable {σ σ' : Type}

/-- The machine with its host observed. -/
def recording (m : Machine σ) : Machine (Recorder σ) where
  config := m.config
  host := ⟨m.host, []⟩
  scope := m.scope
  registry := m.registry
  resources := m.resources

/-- What is observed when a source runs on a machine. The requests are those that a recorder writes
down in front of the host. -/
def observe [Host σ] (m : Machine σ) (source : Text) : Observation where
  outcome := ((Program.interpret source).run.run m).1
  requests := ((Program.interpret source).run.run m.recording).2.host.requests
  scope := ((Program.interpret source).run.run m).2.scope
  store := ((Program.interpret source).run.run m).2.store
  random := ((Program.interpret source).run.run m).2.resources.random

variable {config : Config} {origin : Registry}

theorem Serves.recording {m : Machine σ} (h : m.Serves config origin) :
    m.recording.Serves config origin :=
  { h with }

/-- A recorder changes nothing of a run: neither how it ends nor what comes of the machine and of the
host. -/
theorem interpret_recording [Host σ] (horigin : origin.Blind) {m : Machine σ}
    (hm : m.Serves config origin) (source : Text) :
    ((Program.interpret source).run.run m).1 = ((Program.interpret source).run.run m.recording).1 ∧
      Matches (fun host r => host = r.host) config origin
        ((Program.interpret source).run.run m).2
        ((Program.interpret source).run.run m.recording).2 :=
  Program.interpret_of_serves Recorder.follows_host horigin hm hm.recording rfl rfl source

/-- Machines that serve the same registry at the same time, with hosts that answer alike, are
observed alike, whatever else is on them. -/
theorem observe_of_serves [Host σ] [Host σ'] (horigin : origin.Blind) {m : Machine σ}
    {m' : Machine σ'} (hm : m.Serves config origin) (hm' : m'.Serves config origin)
    (hhost : Host.Alike m.host m'.host) (hclock : m.resources.clock = m'.resources.clock)
    (source : Text) : m.observe source = m'.observe source := by
  obtain ⟨houtcome, hleft⟩ :=
    Program.interpret_of_serves Host.follows_alike horigin hm hm' hhost hclock source
  obtain ⟨-, hrecorded⟩ :=
    Program.interpret_of_serves Recorder.follows_agrees horigin hm.recording hm'.recording
      ⟨rfl, hhost⟩ hclock source
  unfold observe
  rw [houtcome, hrecorded.host.1, hleft.scope, hleft.store, hleft.random]

end Machine

/-! ## What is done with a machine -/

/-- What the owner of a machine does with it over time: calls, and registrations of libraries. -/
inductive Usage where
  | call (c : Call)
  | register (library : Library)

/-- The libraries that are registered in the course of time. -/
def Usage.registered : List Usage → List Library
  | [] => []
  | .call _ :: rest => registered rest
  | .register library :: rest => library :: registered rest

namespace Machine

variable {σ σ' : Type} {H : σ → σ' → Prop} {config : Config} {origin : Registry} {m : Machine σ}
  {m' : Machine σ'}

/-- The machine with a library registered. -/
def register (m : Machine σ) (library : Library) : Machine σ :=
  { m with registry := m.registry.register library }

theorem Matches.register (h : m.Matches H config origin m') (library : Library) :
    (m.register library).Matches H config (origin.register library) (m'.register library) :=
  { h with
    left := { h.left with registry := h.left.registry.register library }
    right := { h.right with registry := h.right.registry.register library } }

/-- A call, whether it fails or not, leads from machines that match to machines that match. -/
theorem Matches.call [Host σ] [Host σ'] (hH : Host.Follows H) (horigin : origin.Blind)
    (h : m.Matches H config origin m') (c : Call) :
    (m.call c).Matches H config origin (m'.call c) := by
  cases c with
  | interpret source =>
    exact (Program.interpret_of_serves hH horigin h.left h.right h.host h.clock source).2
  | execute line => exact (Run.related_statement hH horigin line m m' h).2
  | evaluate text => exact (Run.related_evaluate (Eval.blind_value text) m m' h).2
  | condition text => exact (Run.related_evaluate (Eval.blind_holds text) m m' h).2
  | reset => exact matches_reset h.left h.right h.host h.clock
  | wait clock =>
    exact h.withResources ⟨h.store, h.random, rfl, h.left.prepared, h.right.prepared⟩

/-- The machine after all that is done with it. -/
def after [Host σ] (m : Machine σ) : List Usage → Machine σ
  | [] => m
  | .call c :: rest => (m.call c).after rest
  | .register library :: rest => (m.register library).after rest

theorem Matches.after [Host σ] [Host σ'] (hH : Host.Follows H) (horigin : origin.Blind)
    {history : List Usage} (hlibraries : ∀ library ∈ Usage.registered history, library.Blind)
    (h : m.Matches H config origin m') :
    (m.after history).Matches H config (origin.registerAll (Usage.registered history))
      (m'.after history) := by
  induction history generalizing m m' origin with
  | nil => exact h
  | cons usage rest ih =>
    cases usage with
    | call c => exact ih horigin hlibraries (h.call hH horigin c)
    | register library =>
      obtain ⟨hlibrary, hrest⟩ := List.forall_mem_cons.1 hlibraries
      exact ih (horigin.register hlibrary) hrest (h.register library)

/-! ## Fresh machines -/

theorem serves_fresh {registry : Registry} (h : registry.Serves registry) (config : Config)
    (clock : Clock) (host : σ) : (fresh config registry clock host).Serves config registry :=
  ⟨rfl, h, TimePattern.prepared_empty⟩

/-- The machine that is left when all is done that was done with a fresh one. -/
def leftOver [Host σ] (config : Config) (clock : Clock) (host : σ) (history : List Usage) :
    Machine σ :=
  (fresh config .standard clock host).after history

theorem serves_leftOver [Host σ] (config : Config) (clock : Clock) (host : σ)
    {history : List Usage} (hlibraries : ∀ library ∈ Usage.registered history, library.Blind) :
    (leftOver config clock host history).Serves config
      (Registry.standard.registerAll (Usage.registered history)) := by
  have hserves := serves_fresh Registry.serves_standard config clock host
  -- a fresh machine is as one that has been reset, so it matches itself
  have hfresh : (fresh config .standard clock host).Matches Eq config .standard
      (fresh config .standard clock host) := matches_reset hserves hserves rfl rfl
  exact (hfresh.after Host.follows_eq Registry.blind_standard hlibraries).left

/-- A source that summons a library and prepares a time pattern, and then fails. -/
def halfwayHistory : List Usage :=
  [.call (.interpret ("Summon \"std/random\" ok\n".toList ++
      "DecodeTime \"12:30\" as \"HH:mm\" into t ok\nunheard of".toList)),
    .register Library.time]

/-- A machine on which that has been done. -/
def halfway : Machine Transcript :=
  leftOver {} default {} halfwayHistory

end Machine

end Grimoire
