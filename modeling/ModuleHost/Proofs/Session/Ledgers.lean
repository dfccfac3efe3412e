import ModuleHost.Proofs.Machine.Ledgers
import ModuleHost.Proofs.Session.Dispatches
import ModuleHost.Proofs.Session.Isolation
import ModuleHost.Proofs.Session.Settlement

/-!
# `load` and the ledger

A run in which the builtin `require` is never called does not depend on the ledger and leaves it as
it is, however the loads in it are nested and whatever fails.  So a module that is loaded is run
each time, whether or not it has been required before (`load_overlooks_ledger`).
-/

namespace ModuleHost

open Machine

/-- The file at the path is a module that consists of the units: they are read from its bytecode, or
its source is assembled into them. -/
inductive World.Holds (w : World) (path : String) (us : List CodeUnit) : Prop
  | bytecode {bytes : List UInt8} (hkind : ModuleKind.ofPath path = .ok .compiled)
      (hopen : w.files.openEntry w.cwd path = .ok (.file bytes))
      (hread : Bytecode.read bytes = .ok us)
  | source {text : String} (hkind : ModuleKind.ofPath path = .ok .source)
      (hread : w.readText path = .ok text) (hunits : Assembly.assemble text path = .ok us)

namespace Machine

/-- Two runs that began with the ledgers `l` and `l'` have come to the same, and each has its ledger
still. -/
structure SameButLedger (l l' : Ledger) (m m' : Machine) : Prop where
  done : m'.isDone = m.isDone
  control : m'.control = m.control
  world : m'.world = m.world
  host : m'.host = m.host.withLedger m'.host.ledger
  first : m.loader.ledger = l
  second : m'.loader.ledger = l'
  /-- When the runs are at their end, the hosts differ in that they had different ledgers before. -/
  final : m.stack = [] → m'.stack = [] ∧ m.host.ledger = l ∧ m'.host = m.host.withLedger l'

variable {h : Host} {w w' : World} {name path : String} {us : List CodeUnit} {m : Machine} {n : Nat}

theorem Beside.sameButLedger {x y : Machine} {l l' : Ledger} (h : Beside x y) (hx : x.Keeps l)
    (hy : y.Keeps l') : SameButLedger l l' x y := by
  have hhost : y.host = x.host.withLedger y.host.ledger := by
    obtain ⟨ledger, hhost⟩ := h.host
    rw [hhost]
    rfl
  refine ⟨h.isDone, h.control, h.world, hhost, hx.loader, hy.loader, fun hend => ?_⟩
  have hend' : y.stack = [] := by
    have hstack := h.stack
    rw [hend] at hstack
    exact List.forall₂_nil_left_iff.1 hstack
  have hfirst := hx.loader
  have hsecond := hy.loader
  rw [loader, hend] at hfirst
  rw [loader, hend'] at hsecond
  exact ⟨hend', hfirst, hhost.trans (congrArg x.host.withLedger hsecond)⟩

theorem beside_start (h : Host) (w : World) (ledger : Ledger) {r : Request}
    (hr : ∀ name, r ≠ .require name) : Beside (r.start h w) (r.start (h.withLedger ledger) w) := by
  cases r with
  | require name => exact absurd rfl (hr name)
  | load name =>
    exact rel_load (idle h w) id (fun _ => ledger) [] (R := Beside)
      (fun h => beside_elsewhere ⟨ledger, h⟩)
      (fun m l path source => beside_compileAndLoad m ledger path source) name
  | invoke unit scope args receiver =>
    exact beside_elsewhere ⟨ledger, enter_elsewhere (idle h w) id (fun _ => ledger) [] _ _ _ _⟩

theorem keeps_start (h : Host) (w : World) {r : Request} (hr : ∀ name, r ≠ .require name) :
    (r.start h w).Keeps h.ledger := by
  have hobeys := r.obeys h w
  have hevents : r.events h w = [] := by
    cases r with
    | require name => exact absurd rfl (hr name)
    | load | invoke => rfl
  rw [hevents] at hobeys
  exact .of_obeys hobeys

/-! ### A load that succeeds -/

/-- The run comes to an end, and a load that was run so has this result. -/
def Gives (m : Machine) (result : Bool) : Prop :=
  ∃ n, (m.run n).stack = [] ∧ (m.run n).loaded? = some (.ok result)

theorem isDone_of_loaded? {result : Except LoadError Bool} (hstack : m.stack = [])
    (hresult : m.loaded? = some result) : m.isDone = true := by
  obtain ⟨host, w, control, stack⟩ := m
  obtain rfl : stack = [] := hstack
  cases control with
  | running f => cases hresult
  | returning | raising | failing | stuck => rfl

variable {result : Bool}

theorem Gives.run (h : m.Gives result) (k : Nat) : (m.run k).Gives result := by
  obtain ⟨n, hstack, hresult⟩ := h
  have hend : (m.run k).run n = m.run n := by
    rw [← run_add, Nat.add_comm, run_add, run_of_isDone (isDone_of_loaded? hstack hresult)]
  exact ⟨n, by rwa [hend], by rwa [hend]⟩

theorem not_gives_failLoad (hstack : m.stack = []) (l : Load) (e : LoadError) :
    ¬ (m.failLoad l e).Gives result := by
  rintro ⟨n, -, hresult⟩
  rw [run_failLoad hstack, failLoad_eq] at hresult
  cases hresult

/-- Where the units of a module run above their load, and the load succeeds, the first of them has
been entered, and the result is true. -/
theorem Gives.of_startLoad {artifact? : Option Artifact}
    (hgives : (startLoad h w path us artifact?).Gives result) :
    result = true ∧ (startLoad h w path us artifact?).control
      = .running (Frame.start h.units.length .topLevel [] .main) := by
  constructor
  · obtain ⟨n, hstack, hresult⟩ := hgives
    obtain ⟨k, j, hempty, ⟨value, hvalue⟩ | ⟨e, he⟩⟩ := exists_of_run_above hstack
    · rw [startLoad, hvalue, returnTo, run_finishLoad hempty, finishLoad_eq] at hresult
      exact (Except.ok.inj (Option.some.inj hresult)).symm
    · rw [startLoad, he, raiseTo, run_failLoad hempty, failLoad_eq] at hresult
      cases hresult
  · by_cases hfull : (idle (h.appendUnits (CodeUnit.placed path us)) w).host.depth ≥ Host.maxDepth
    · let x : Machine :=
        { host := h.appendUnits (CodeUnit.placed path us), world := w
          control := .raising .stackOverflow }
      have hstep : (startLoad h w path us artifact?).run 1
          = x.failLoad { (idle h w).newLoad none with artifact := artifact? }
              (.raised .stackOverflow) := by
        rw [run_succ, run_zero, startLoad, startUnits, enter, if_pos hfull]
        rfl
      exact absurd (hstep ▸ hgives.run 1) (not_gives_failLoad rfl _ _)
    · rw [startLoad, startUnits, enter, if_neg hfull]
      rfl

/-- What is left of the load of a source once its units have been compiled. -/
theorem exists_loadCompiledUnits {text : String} {a : Artifact}
    (hread : w.readText path = .ok text) (hcreate : w.createArtifact h.config = (.ok a, w'))
    (hunits : Assembly.assemble text path = .ok us)
    (hgives : (startSource h w path).Gives result) :
    ∃ k, (startSource h w path).run k = (idle h w').loadCompiledUnits (artifactLoad h a) path us := by
  cases hcompiler : h.compiler with
  | onRequest =>
    exact ⟨0, loadSource_of_assemble (m := idle h w) hread hcreate hunits hcompiler _⟩
  | always =>
    have hapart := compiledApart hcompiler hread hcreate hunits
    obtain ⟨n, hstack, hresult⟩ := hgives
    have hrun := run_above_cases (startApart h w' us)
      [.compilation { load := artifactLoad h a, path, outer := h }] n
    rw [← startSource_eq_above hcompiler hread hcreate hunits] at hrun
    rcases hrun with ⟨-, hrun⟩ | ⟨k, -, hdone, hrun⟩
    · rw [hrun] at hstack
      exact absurd hstack (by simp)
    · cases hcontrol : ((startApart h w' us).run k).control with
      | running f =>
        rw [isDone, hcontrol] at hdone
        cases hdone
      | returning value => exact hapart.returned k value hdone hcontrol
      | raising e | failing e =>
        obtain ⟨k', hend, herror, -⟩ := hapart.raised k _ hdone (by rw [value?, hcontrol])
        rw [run_eq_run_of_isDone (isDone_of_loaded? hstack hresult) hend, herror] at hresult
        cases hresult
      | stuck =>
        have hstuck : (((startApart h w' us).run k).above
            [.compilation { load := artifactLoad h a, path, outer := h }]).isDone = true := by
          rw [isDone, above_control, hcontrol]
        rw [hrun, run_of_isDone hstuck] at hstack
        exact absurd hstack (by simp)

theorem Gives.of_startSource (hgives : (startSource h w path).Gives result) :
    ∃ text us k world artifact?, w.readText path = .ok text ∧ Assembly.assemble text path = .ok us
      ∧ (startSource h w path).run k = startLoad h world path us artifact? := by
  cases hread : w.readText path with
  | error e =>
    rw [startSource, loadSource, show (idle h w).world.readText path = _ from hread] at hgives
    exact absurd hgives (not_gives_failLoad rfl _ _)
  | ok text =>
    rcases hcreate : w.createArtifact h.config with ⟨made, w'⟩
    cases made with
    | error e =>
      rw [startSource, loadSource, show (idle h w).world.readText path = _ from hread] at hgives
      dsimp only at hgives
      rw [show (idle h w).world.createArtifact (idle h w).host.config = _ from hcreate] at hgives
      exact absurd hgives (not_gives_failLoad rfl _ _)
    | ok a =>
      cases hunits : Assembly.assemble text path with
      | error e =>
        rw [startSource, loadSource_of_error (m := idle h w) hread hcreate hunits] at hgives
        exact absurd hgives (not_gives_failLoad rfl _ _)
      | ok us =>
        obtain ⟨k, hk⟩ := exists_loadCompiledUnits hread hcreate hunits hgives
        cases hwrite : Bytecode.write? us with
        | none =>
          have hfails := hgives.run k
          rw [hk, loadCompiledUnits, hwrite] at hfails
          exact absurd hfails (not_gives_failLoad rfl _ _)
        | some bytes =>
          have hback := read_of_assemble hunits (World.ne_empty_of_readText hread) hwrite
          exact ⟨text, us, k, _, _, rfl, hunits,
            hk.trans (loadCompiledUnits_eq_startLoad hcreate hback hwrite path)⟩

theorem Gives.of_loadBytecode
    (hgives : ((idle h w).loadBytecode ((idle h w).newLoad none) path path).Gives result) :
    ∃ bytes us, w.files.openEntry w.cwd path = .ok (.file bytes) ∧ Bytecode.read bytes = .ok us := by
  cases hopen : w.files.openEntry w.cwd path with
  | error e =>
    have hfails : (idle h w).loadBytecode ((idle h w).newLoad none) path path
        = (idle h w).failLoad ((idle h w).newLoad none) (.unreadable path (.file e)) := by
      rw [loadBytecode, show (idle h w).world.files.openEntry (idle h w).world.cwd path = _ from hopen]
    rw [hfails] at hgives
    exact absurd hgives (not_gives_failLoad rfl _ _)
  | ok entry =>
    rw [loadBytecode_of_openEntry (m := idle h w) hopen] at hgives
    cases hread : Bytecode.readStream (streamOf entry) with
    | error e =>
      rw [loadStream_of_error _ _ hread] at hgives
      exact absurd hgives (not_gives_failLoad rfl _ _)
    | ok us =>
      cases entry with
      | file bytes => exact ⟨bytes, us, rfl, hread⟩
      | directory | link => cases hread

/-- A load that succeeds has found a module and comes to the point where its units run. -/
theorem Gives.of_load (hgives : ((idle h w).load name).Gives result) :
    ∃ path us k world artifact?, w.resolve h.searchPath name = .ok path ∧ w.Holds path us
      ∧ ((idle h w).load name).run k = startLoad h world path us artifact? := by
  cases hresolve : w.resolve h.searchPath name with
  | error e =>
    obtain ⟨n, -, hresult⟩ := hgives
    rw [load, show (idle h w).world.resolve (idle h w).host.searchPath name = _ from hresolve,
      run_of_isDone rfl] at hresult
    cases hresult
  | ok path =>
    have hload : (idle h w).load name = (idle h w).dispatch ((idle h w).newLoad none) path :=
      load_of_resolve (m := idle h w) hresolve
    rw [dispatch] at hload
    cases hkind : ModuleKind.ofPath path with
    | error reason =>
      rw [hkind] at hload
      rw [hload] at hgives
      exact absurd hgives (not_gives_failLoad rfl _ _)
    | ok kind =>
      rw [hkind] at hload
      cases kind with
      | native =>
        dsimp only at hload
        rw [hload, loadNative] at hgives
        exact absurd hgives (not_gives_failLoad rfl _ _)
      | source =>
        have hload : (idle h w).load name = startSource h w path := hload
        rw [hload] at hgives ⊢
        obtain ⟨text, us, k, world, artifact?, hread, hunits, hk⟩ := hgives.of_startSource
        exact ⟨path, us, k, world, artifact?, rfl, .source hkind hread hunits, hk⟩
      | compiled =>
        dsimp only at hload
        rw [hload] at hgives
        obtain ⟨bytes, us, hopen, hread⟩ := hgives.of_loadBytecode
        exact ⟨path, us, 0, w, none, rfl, .bytecode hkind hopen hread,
          load_bytecode_eq ⟨hresolve, hkind, hopen⟩ hread⟩

end Machine

/-- A run that never calls the builtin `require`, of a load or of an invocation, does not depend on
the ledger: from two hosts that differ in nothing else it comes to the same, step by step, and each
host has its ledger as it was.  A load that succeeds gives true and has run the module, whatever
stands in the ledger: it has come to the point where the units of the file stand behind those of the
host and the first of them is entered. -/
theorem load_overlooks_ledger (h : Host) (w : World) :
    (∀ (ledger : Ledger) (r : Request), (∀ name, r ≠ .require name) →
      (∀ k, ¬ ((r.start h w).run k).Requires) → ∀ n,
        SameButLedger h.ledger ledger ((r.start h w).run n)
          ((r.start (h.withLedger ledger) w).run n))
      ∧ ∀ name result, ((idle h w).load name).Gives result →
        result = true ∧ ∃ path us k world artifact?, w.resolve h.searchPath name = .ok path
          ∧ w.Holds path us ∧ ((idle h w).load name).run k = startLoad h world path us artifact?
          ∧ (((idle h w).load name).run k).control
            = .running (Frame.start h.units.length .topLevel [] .main) := by
  constructor
  · intro ledger r hr hrequires n
    obtain ⟨hbeside, hx, hy⟩ := (beside_start h w ledger hr).run (keeps_start h w hr)
      (keeps_start (h.withLedger ledger) w hr) hrequires n
    exact hbeside.sameButLedger hx hy
  · intro name result hgives
    obtain ⟨path, us, k, world, artifact?, hresolve, hholds, hk⟩ := hgives.of_load
    have hstart := hgives.run k
    rw [hk] at hstart
    obtain ⟨htrue, hcontrol⟩ := hstart.of_startLoad
    exact ⟨htrue, path, us, k, world, artifact?, hresolve, hholds, hk, by rw [hk, hcontrol]⟩

/-- A module that does nothing is loaded in the same way whether or not it has been required. -/
theorem load_overlooks_ledger_halt :
    let w : World := { files := .single "a.nlb" haltModule }
    let required : Ledger := { loaded := { entries := ["/a.nlb"] } }
    (∀ n, SameButLedger {} required (((idle {} w).load "/a.nlb").run n)
        (((idle (Host.withLedger {} required) w).load "/a.nlb").run n))
      ∧ ((idle {} w).load "/a.nlb").Gives true
      ∧ ∃ k, (((idle {} w).load "/a.nlb").run k).control
          = .running (Frame.start 0 .topLevel [] .main) := by
  intro w required
  have hname : Path.IsName "a.nlb" := ⟨by decide, by decide, by decide, by decide, by decide⟩
  have hopen := FileTree.openEntry_single hname haltModule []
  have hread : Bytecode.read haltModule
      = .ok [{ instructions := [{ opcode := .halt }], lines := [0] }] := by
    decide
  have hload : (idle {} w).load "/a.nlb" = _ :=
    load_bytecode_eq ⟨World.resolve_of_openEntry (by decide) hopen _, by decide, hopen⟩ hread
  have hend : (((idle {} w).load "/a.nlb").run 4).stack = []
      ∧ (((idle {} w).load "/a.nlb").run 4).loaded? = some (.ok true) := by
    rw [hload]
    decide
  have hquiet : ∀ k, ¬ (((idle {} w).load "/a.nlb").run k).Requires := by
    refine run_of_isDone_run (P := fun m => ¬ m.Requires)
      (isDone_of_loaded? hend.1 hend.2) fun k hk => ?_
    rw [hload]
    revert k
    decide
  obtain ⟨hsame, hruns⟩ := load_overlooks_ledger {} w
  obtain ⟨-, -, -, k, -, -, -, -, -, hcontrol⟩ := hruns "/a.nlb" true ⟨4, hend⟩
  exact ⟨hsame required (.load "/a.nlb") nofun hquiet, ⟨4, hend⟩, k, hcontrol⟩

end ModuleHost
