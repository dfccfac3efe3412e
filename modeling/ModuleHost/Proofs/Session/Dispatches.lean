import ModuleHost.Proofs.FileTree.Following
import ModuleHost.Proofs.Machine.Discipline

/-!
# Every dispatch of a session

A session is all that happens to a host from some moment on: it is asked to require, to load and to
invoke, and between two requests whoever owns it may change it and the files as they like, but for
the ledger and the settings of the loader.  An extension that is accepted as a library may do the
same while it is loaded (`Extended`).

`dispatches_disciplined`: no key is started while it is in progress, none is completed twice, and
none is started twice unless failures are forgotten.
-/

namespace ModuleHost

open Machine Books

inductive Request where
  | require (name : String)
  | load (name : String)
  | invoke (unit : Nat) (scope : Scope) (args : List Value) (receiver : Value)

namespace Request

def start (host : Host) (world : World) : Request → Machine
  | require name => (idle host world).require name
  | load name => (idle host world).load name
  | invoke unit scope args receiver => (idle host world).enter unit scope args receiver

def events (host : Host) (world : World) : Request → List DispatchEvent
  | require name => (idle host world).requireEvents name
  | load _ | invoke .. => []

end Request

/-- A library has been accepted and has done what it likes to the machine, but for the ledger and
the settings of the loader. -/
structure Extended.Kept (m : Machine) (name path : String) (m' : Machine) : Prop where
  resolved : m.world.resolve m.host.searchPath name = .ok path
  native : ModuleKind.ofPath path = .ok .native
  config : m'.host.config = m.host.config
  control : m'.control = .returning (.bool true)
  stack : m'.stack = m.stack

/-- What loading an extension by name comes to when the library is accepted. -/
inductive Extended (m : Machine) (name : String) :
    Builtin → List DispatchEvent → Machine → Prop
  | load {m' : Machine} {path : String} (hk : Extended.Kept m name path m')
      (hl : m'.host.ledger = m.host.ledger) : Extended m name .load [] m'
  | require {m' : Machine} {path : String} (hk : Extended.Kept m name path m')
      (hf : m.host.ledger.state path = .fresh)
      (hl : m'.host.ledger = (m.host.ledger.markLoading path).markLoaded path) :
      Extended m name .require [.started path, .completed path] m'

/-- The machine can be reached in a session that begins with the host `first`, and the events on the
way to it were `log`. -/
inductive Session (first : Host) : Machine → List DispatchEvent → Prop
  | begin (world : World) : Session first (idle first world) []
  | step {m : Machine} {log : List DispatchEvent} (h : Session first m log) :
      Session first m.step (log ++ m.events)
  /-- The next request is made when the one before has come to its end. -/
  | request {m : Machine} {log : List DispatchEvent} (h : Session first m log)
      (hdone : m.isDone = true) (hstack : m.stack = []) {host : Host} (world : World)
      (hl : host.ledger = m.host.ledger) (hc : host.config = m.host.config) (r : Request) :
      Session first (r.start host world) (log ++ r.events host world)
  /-- Code loads an extension. -/
  | extension {m m' : Machine} {log log' : List DispatchEvent} (h : Session first m log)
      {f : Frame} {dest : UInt8} {b : Builtin} {name : String} (hf : m.control = .running f)
      (hb : m.builtinCall? f = some (dest, b, [.str name]))
      (he : Extended (m.push (.call f dest)) name b log' m') : Session first m' (log ++ log')
  /-- An extension is loaded on request. -/
  | extensionRequest {m m' : Machine} {log log' : List DispatchEvent} (h : Session first m log)
      (hdone : m.isDone = true) (hstack : m.stack = []) {host : Host} (world : World)
      (hl : host.ledger = m.host.ledger) (hc : host.config = m.host.config) {b : Builtin}
      {name : String} (he : Extended (idle host world) name b log' m') :
      Session first m' (log ++ log')

variable {retry : Bool} {b : Books} {log log' : List DispatchEvent} {m m' : Machine}

theorem Machine.Obeys.trans (h : Obeys retry b log m) (h' : Obeys retry m.books log' m') :
    Obeys retry b (log ++ log') m' :=
  ⟨h'.secluded, h'.config, h.moves.append h'.moves⟩

/-- An extension obeys the discipline where the host itself loads. -/
theorem Extended.obeys {name : String} {builtin : Builtin} (h : Extended m name builtin log m')
    (ho : Outermost m.stack) :
    Obeys m.host.config.retryFailed ⟨m.host.ledger, keys m.stack⟩ log m' := by
  cases h with
  | load hk hl =>
    refine obeys_of_outermost ?_ ?_ ?_
    · rwa [hk.stack]
    · rw [hk.config]
    · rw [hl, hk.stack]
      exact .refl _
  | @require _ path hk hf hl =>
    refine obeys_of_outermost ?_ ?_ ?_
    · rwa [hk.stack]
    · rw [hk.config]
    · rw [hl, hk.stack]
      exact (Moves.single (.started hf)).append (Moves.single .completed)

theorem Extended.loads {name : String} {builtin : Builtin} (h : Extended m name builtin log m') :
    builtin ≠ .print := by
  cases h <;> decide

/-- What a machine without waiting activations leaves to its owner obeys the discipline. -/
theorem Machine.Obeys.idle (h : Obeys retry b log m) (hstack : m.stack = []) {host : Host}
    (world : World) (hl : host.ledger = m.host.ledger) (hc : host.config = m.host.config) :
    Obeys retry b log (Machine.idle host world) := by
  have hloader : m.loader = m.host := by
    rw [loader, hstack]
    rfl
  obtain ⟨-, hconfig, hm⟩ := h
  rw [books, hloader, hstack, ← hl] at hm
  rw [hloader, ← hc] at hconfig
  exact obeys_of_outermost trivial hconfig hm

theorem Request.obeys (host : Host) (world : World) (r : Request) :
    Obeys host.config.retryFailed ⟨host.ledger, []⟩ (r.events host world)
      (r.start host world) := by
  cases r with
  | require name => exact require_obeys (idle host world) name trivial
  | load name => exact load_obeys (idle host world) name trivial
  | invoke unit scope args receiver =>
    have hs : Secluded (idle host world) := trivial
    exact hs.obeys.enter unit scope args receiver

/-- Every session obeys the discipline. -/
theorem Session.obeys {first : Host} (h : Session first m log) :
    Obeys first.config.retryFailed ⟨first.ledger, []⟩ log m := by
  induction h with
  | begin world =>
    have hs : Secluded (idle first world) := trivial
    exact hs.obeys
  | step _ ih => exact ih.step
  | request _ _ hstack world hl hc r ih =>
    have hidle := ih.idle hstack world hl hc
    refine hidle.trans ?_
    rw [← hidle.config]
    exact r.obeys _ world
  | @extension m m' _ log' _ f dest builtin name hf hb he ih =>
    have ho : Outermost m.stack := by
      rcases SecludedIn.cases ih.secluded with ho | ⟨hprint, -⟩
      · exact ho
      · have hmem := mem_builtins_of_builtinCall? hb
        rw [hprint, List.mem_singleton] at hmem
        exact absurd hmem he.loads
    have hloader : m.loader = m.host := loaderOf_of_outermost _ ho
    refine ih.trans ?_
    rw [← ih.config, books, hloader]
    exact he.obeys ho
  | extensionRequest _ _ hstack world hl hc he ih =>
    have hidle := ih.idle hstack world hl hc
    refine hidle.trans ?_
    rw [← hidle.config]
    exact he.obeys trivial

/-- In every session the keys in progress are those on the stack, each of them once; a key is
started only when every earlier start of it has ended; no key is completed twice; and if failures
are not forgotten, no key is started twice. -/
theorem dispatches_disciplined {first : Host} (h : Session first m log) (key : String) :
    (keys m.stack).Nodup
      ∧ log.count (.started key)
          = (keys m.stack).count key + log.count (.completed key) + log.count (.failed key)
      ∧ (∀ before after, log = before ++ .started key :: after →
          before.count (.started key)
            = before.count (.completed key) + before.count (.failed key))
      ∧ log.count (.completed key) ≤ 1
      ∧ (first.config.retryFailed = false → log.count (.started key) ≤ 1) := by
  have hconsistent := consistent_nil first.ledger
  obtain ⟨-, -, hm⟩ := h.obeys
  have hbalance := hm.balance key
  refine ⟨(hconsistent.moves hm).nodup, ?_, ?_, hm.count_completed_le_one hconsistent key, ?_⟩
  · rw [List.count_nil, Nat.zero_add] at hbalance
    exact hbalance
  · rintro before after rfl
    exact hm.started_balanced hconsistent rfl
  · intro hr
    rw [hr] at hm
    exact hm.count_started_le_one key

/-- An empty file is started once, and fails. -/
theorem dispatches_disciplined_empty :
    ∃ m, Session { config := { retryFailed := false } } m [.started "/a.nlb", .failed "/a.nlb"]
      ∧ (keys m.stack).Nodup
      ∧ [DispatchEvent.started "/a.nlb", .failed "/a.nlb"].count (.started "/a.nlb") ≤ 1 := by
  have hname : Path.IsName "a.nlb" := ⟨by decide, by decide, by decide, by decide, by decide⟩
  have hopen := FileTree.openEntry_single hname [] []
  let m := idle { config := { retryFailed := false } } { files := .single "a.nlb" [] }
  have hevents : m.requireEvents "/a.nlb" = [.started "/a.nlb", .failed "/a.nlb"] := by
    have hresolve : m.world.resolve m.host.searchPath "/a.nlb" = .ok "/a.nlb" :=
      World.resolve_of_openEntry (by decide) hopen _
    have hrequire : m.require "/a.nlb" = _ :=
      require_bytecode (by decide) hopen (by decide +kernel) (by decide)
    rw [requireEvents, hresolve]
    dsimp only
    rw [hrequire]
    decide +kernel
  have hsession : Session m.host (m.require "/a.nlb") (m.requireEvents "/a.nlb") :=
    (Session.begin m.world).request rfl rfl m.world rfl rfl (.require "/a.nlb")
  rw [hevents] at hsession
  obtain ⟨hnodup, _, _, _, hstarted⟩ := dispatches_disciplined hsession "/a.nlb"
  exact ⟨_, hsession, hnodup, hstarted rfl⟩

end ModuleHost
