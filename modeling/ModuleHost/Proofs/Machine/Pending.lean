import ModuleHost.Proofs.Machine.Isolated
import ModuleHost.Proofs.Machine.LoadedSources
import ModuleHost.Proofs.Machine.Unwinding

/-!
# The pending exception

A refused stream of another version leaves an exception in the host, and the load that has read the
stream takes it out again.  So if nothing is pending when a machine begins, nothing is pending
before any of its steps (`Machine.Clear.run`), and the exception that a load takes out can only be
the one that its own stream has left.  `Machine.Faithful` keeps both together: what a refused file
comes to, and that nothing else looks like it.
-/

namespace ModuleHost

namespace LoadError

/-- The failure that a refused bytecode file comes to: another version is raised as an exception,
and whatever else the decoder says is told of the file. -/
def refusal (path : String) : Bytecode.DecodeError → LoadError
  | .unsupportedVersion found => .raised
      { className := "ScriptError", message := Bytecode.DecodeError.message (.unsupportedVersion found) }
  | e => .unreadable path (.bytecode e)

inductive FromDecoder : LoadError → Prop
  | raised (exception : Exception) : FromDecoder (.raised exception)
  | unreadable (path : String) (e : Bytecode.DecodeError) :
    FromDecoder (.unreadable path (.bytecode e))

theorem refusal_eq (path : String) (e : Bytecode.DecodeError) :
    (match (Host.pendingFor? e).or none with
      | some exception => LoadError.raised exception
      | none => .unreadable path (.bytecode e)) = refusal path e := by
  cases e <;> rfl

end LoadError

theorem Host.eta_pending {h : Host} (hp : h.pending = none) : { h with pending := none } = h := by
  rw [← hp]

/-- The file at the path is taken for bytecode, and the decoder refuses it. -/
def World.Refuses (w : World) (path : String) (e : Bytecode.DecodeError) : Prop :=
  ModuleKind.ofPath path = .ok .compiled
    ∧ ∃ entry, w.files.openEntry w.cwd path = .ok entry
      ∧ Bytecode.readStream (Machine.streamOf entry) = .error e

def World.RefusalOf (w : World) (path : String) (err : LoadError) : Prop :=
  ∃ e, w.Refuses path e ∧ err = .refusal path e

namespace Machine

def Dispatches (m : Machine) (b : Builtin) (name path : String) : Prop :=
  m.world.resolve m.host.searchPath name = .ok path
    ∧ (b = .load ∨ b = .require ∧ m.host.ledger.state path = .fresh)

def HandsOver (m : Machine) (path : String) : Prop :=
  ∃ f dest b name, m.control = .running f ∧ m.builtinCall? f = some (dest, b, [.str name])
    ∧ m.Dispatches b name path

/-- The failure to which the next step comes has a cause: the step hands over the file whose refusal
it is, or it is the exception that reaches a load. -/
def Causes (m : Machine) (err : LoadError) : Prop :=
  (∃ path, m.HandsOver path ∧ m.world.RefusalOf path err)
    ∨ ∃ e, m.value? = some (.error e) ∧ err = .raised e

/-- No exception is pending, neither in the host that runs nor in one that waits.  A host that waits
for a compilation will find the units as they were compiled. -/
inductive Clear : Machine → Prop
  | plain {m : Machine} (hp : m.host.pending = none) (ho : Outermost m.stack) : Clear m
  | compiling {x : Machine} {us : List CodeUnit} {w : World} {h : Host} {stack : List Activation}
      {l : Load} {path : String} (hi : x.Isolated us w) (hx : x.host.pending = none)
      (hus : Bytecode.Lossless us) (hkeeps : w.Keeps l.artifact) (hp : h.pending = none)
      (ho : Outermost stack) :
      Clear (x.above (.compilation { load := l, path, outer := h } :: stack))

/-- No exception is pending, and if a load has failed now as by a refused file, then it was by one
of these failures. -/
structure Faithful (C : LoadError → Prop) (m : Machine) : Prop where
  clear : m.Clear
  cause : ∀ err, m.control = .failing err → err.FromDecoder → C err

variable {C C' : LoadError → Prop} {m m' : Machine} {f : Frame} {l : Load} {path : String}
  {us : List CodeUnit} {e : Bytecode.DecodeError} {b : Builtin} {name : String}

theorem Faithful.mono (h : m.Faithful C) (hC : ∀ err, C err → C' err) : m.Faithful C' :=
  ⟨h.clear, fun err hc hd => hC err (h.cause err hc hd)⟩

theorem Isolated.outermost {w : World} (h : m.Isolated us w) : Outermost m.stack := by
  have hcalls := h.calls
  generalize m.stack = stack at hcalls
  induction stack with
  | nil => trivial
  | cons a stack ih =>
    obtain ⟨f, dest, rfl⟩ := hcalls a List.mem_cons_self
    exact ih fun b hb => hcalls b (List.mem_cons_of_mem _ hb)

/-! ### Entering and failing -/

theorem pending_enter (m : Machine) (unit : Nat) (scope : Scope) (args : List Value)
    (receiver : Value) : (m.enter unit scope args receiver).host.pending = m.host.pending := by
  unfold enter
  split <;> rfl

theorem enter_not_failing (m : Machine) (unit : Nat) (scope : Scope) (args : List Value)
    (receiver : Value) (err : LoadError) :
    (m.enter unit scope args receiver).control ≠ .failing err := by
  unfold enter
  split <;> nofun

theorem loadStream_refused (hp : m.host.pending = none)
    {stream : Except Bytecode.StreamFault (List UInt8)}
    (hr : Bytecode.readStream stream = .error e) (l : Load) (path attribution : String) :
    m.loadStream l path attribution stream = m.failLoad l (.refusal path e) := by
  rw [loadStream_of_error _ _ hr, Host.eta_pending hp, hp]
  exact congrArg _ (LoadError.refusal_eq path e)

section

variable (hp : m.host.pending = none) (ho : Outermost m.stack)

include hp ho

theorem faithful_enter (unit : Nat) (scope : Scope) (args : List Value) (receiver : Value) :
    (m.enter unit scope args receiver).Faithful C := by
  refine ⟨.plain ((pending_enter m ..).trans hp) ?_, fun err hc =>
    absurd hc (enter_not_failing m unit scope args receiver err)⟩
  rwa [stack_enter]

theorem faithful_failLoad (l : Load) {err : LoadError} (hC : err.FromDecoder → C err) :
    (m.failLoad l err).Faithful C := by
  rw [failLoad_eq]
  refine ⟨.plain hp ho, fun err' hc hd => ?_⟩
  cases hc
  exact hC hd

/-! ### Loading -/

theorem faithful_loadStream_of_ok {stream : Except Bytecode.StreamFault (List UInt8)}
    (hr : Bytecode.readStream stream = .ok us) (l : Load) (path attribution : String) :
    (m.loadStream l path attribution stream).Faithful C := by
  rw [loadStream_of_ok _ _ hr]
  refine faithful_enter ?_ ?_ _ _ _ _
  · exact hp
  · exact ho

theorem faithful_loadStream (l : Load) (path attribution : String)
    (stream : Except Bytecode.StreamFault (List UInt8)) :
    (m.loadStream l path attribution stream).Faithful fun err =>
      ∃ e, Bytecode.readStream stream = .error e ∧ err = .refusal path e := by
  cases hr : Bytecode.readStream stream with
  | ok units => exact faithful_loadStream_of_ok hp ho hr l path attribution
  | error e =>
    rw [loadStream_refused hp hr]
    exact faithful_failLoad hp ho l fun _ => ⟨e, rfl, rfl⟩

/-- What has been compiled is not refused. -/
theorem faithful_loadCompiledUnits (hkeeps : m.world.Keeps l.artifact)
    (hus : Bytecode.Lossless us) (path : String) :
    (m.loadCompiledUnits l path us).Faithful C := by
  obtain ⟨a, ha, hread⟩ := hkeeps
  cases hw : Bytecode.write? us with
  | none =>
    rw [loadCompiledUnits, ha, hw]
    exact faithful_failLoad hp ho l (by rintro ⟨⟩)
  | some bytes =>
    have hback : Bytecode.readStream (.ok bytes) = .ok us := hus bytes hw
    rw [loadCompiledUnits_of_keeps ha hread hw]
    exact faithful_loadStream_of_ok (m := { m with world := m.world.writeArtifact a bytes }) hp ho
      hback l a.path path

theorem faithful_compileAndLoad (hkeeps : m.world.Keeps l.artifact) (hpath : path ≠ "")
    (source : String) : (m.compileAndLoad l path source).Faithful C := by
  unfold compileAndLoad
  cases hassemble : Assembly.assemble source path with
  | error e => exact faithful_failLoad hp ho l (by rintro ⟨⟩)
  | ok units =>
    have hus := lossless_of_assemble hassemble hpath
    dsimp only
    split
    · have hi : Isolated units m.world
          { m with host := m.host.isolated.appendUnits units, stack := [] } :=
        ⟨rfl, rfl, rfl, nofun⟩
      rw [push_eq_above, enterTopLevel_above]
      exact ⟨.compiling (hi.enter 0 .topLevel [] .main) (pending_enter _ ..) hus hkeeps hp ho,
        fun err hc => absurd hc (enter_not_failing _ _ _ _ _ err)⟩
    · exact faithful_loadCompiledUnits hp ho hkeeps hus path

theorem faithful_dispatch (l : Load) (path : String) :
    (m.dispatch l path).Faithful (m.world.RefusalOf path) := by
  generalize m.dispatch l path = m', dispatch_handed m l path = hd
  cases hd with
  | @fails m₁ l₁ e hprepared he =>
    have hearly : e.FromDecoder → m.world.RefusalOf path e := by
      rintro ⟨⟩ <;> cases he
    rw [← hprepared.host] at hp
    rw [← hprepared.stack] at ho
    exact faithful_failLoad hp ho l₁ hearly
  | @streams entry hkind hopen =>
    refine (faithful_loadStream hp ho l path path (streamOf entry)).mono fun err herr => ?_
    obtain ⟨e, hr, rfl⟩ := herr
    exact ⟨e, ⟨hkind, entry, hopen, hr⟩, rfl⟩
  | @compiles source a world hread hc =>
    exact faithful_compileAndLoad (m := { m with world })
      (l := { l with artifact := some a }) hp ho (World.keeps_of_createArtifact hc)
      (World.ne_empty_of_readText hread) source

/-! ### Steps -/

theorem faithful_callBuiltin (b : Builtin) (args : List Value) :
    (m.callBuiltin b args).Faithful fun err => ∃ name path, args = [.str name]
      ∧ m.Dispatches b name path ∧ m.world.RefusalOf path err := by
  generalize m.callBuiltin b args = m', callBuiltin_cases m b args = hcalled
  cases hcalled with
  | prints | adds | refuses | known => exact ⟨.plain hp ho, nofun⟩
  | unresolved hb hr =>
    refine ⟨.plain hp ho, fun err hc hd => ?_⟩
    cases hc
    rw [World.eq_notFound_of_resolve hr] at hd
    cases hd
  | @loads name path hr =>
    exact (faithful_dispatch hp ho _ path).mono fun err herr =>
      ⟨name, path, rfl, ⟨hr, Or.inl rfl⟩, herr⟩
  | @requires name path hr hf =>
    exact (faithful_dispatch (m := m.mapLedger (·.markLoading path)) hp ho _ path).mono
      fun err herr => ⟨name, path, rfl, ⟨hr, Or.inr ⟨rfl, hf⟩⟩, herr⟩

theorem faithful_fetch (hc : m.control = .running f) : (m.fetch f).Faithful fun err =>
    ∃ path, m.HandsOver path ∧ m.world.RefusalOf path err := by
  cases hb : m.builtinCall? f with
  | some call =>
    obtain ⟨dest, b, args⟩ := call
    rw [fetch_of_builtinCall? hb]
    refine (faithful_callBuiltin (m := m.push (.call f dest)) hp ho b args).mono ?_
    rintro err ⟨name, path, rfl, hdispatch, herr⟩
    exact ⟨path, ⟨f, dest, b, name, hc, hb, hdispatch⟩, herr⟩
  | none =>
    generalize m.fetch f = m', fetch_executed hb = he
    cases he with
    | @goesOn u host f' _ heffect =>
      have hhost : host.pending = none := by
        cases heffect <;> exact hp
      exact ⟨.plain hhost ho, nofun⟩
    | calls dest args => exact faithful_enter (m := m.push (.call f dest)) hp ho _ _ _ _
    | returns | halts | raises | lost | stuck => exact ⟨.plain hp ho, nofun⟩

end

/-- A step of a machine in whose host nothing waits for a compilation. -/
theorem faithful_step_of_outermost (hp : m.host.pending = none) (ho : Outermost m.stack)
    (hdone : m.isDone = false) : m.step.Faithful m.Causes := by
  have hwaiting : ∀ {a : Activation} {stack : List Activation}, m.stack = a :: stack →
      Outermost stack ∧ ∀ c, a ≠ .compilation c := by
    intro a stack hstack
    rw [hstack] at ho
    refine ⟨?_, ho.not_compilation List.mem_cons_self⟩
    cases a with
    | call | load => exact ho
    | compilation c => exact ho.elim
  generalize m.step = m', stepped m = hs
  cases hs with
  | fetches hc => exact (faithful_fetch hp ho hc).mono fun err => Or.inl
  | stays h =>
    rw [h] at hdone
    cases hdone
  | @returns value a stack hc hstack =>
    obtain ⟨ho', hcompilation⟩ := hwaiting hstack
    cases a with
    | compilation c => exact absurd rfl (hcompilation c)
    | load l =>
      show (finishLoad { m with stack } l).Faithful _
      rw [finishLoad_eq]
      exact ⟨.plain hp ho', nofun⟩
    | call f dest =>
      show (resume { m with stack } f dest value).Faithful _
      unfold resume assign?
      split
      · exact ⟨.plain hp ho', nofun⟩
      · cases f.write? dest value with
        | none => exact ⟨.plain hp ho', nofun⟩
        | some f' => exact ⟨.plain hp ho', nofun⟩
  | @raises e a stack he hstack =>
    obtain ⟨ho', hcompilation⟩ := hwaiting hstack
    cases a with
    | compilation c => exact absurd rfl (hcompilation c)
    | call f dest => exact ⟨.plain hp ho', nofun⟩
    | load l =>
      exact faithful_failLoad (m := { m with stack }) hp ho' l fun _ => Or.inr ⟨e, he, rfl⟩

/-- What has been compiled is handed to the host that waits, and is not refused there. -/
theorem faithful_compiled {x : Machine} (hdone : x.isDone = true) {w : World}
    (hi : x.Isolated us w) (hx : x.host.pending = none) (hus : Bytecode.Lossless us)
    (hkeeps : w.Keeps l.artifact) {h : Host} (hp : h.pending = none) {stack : List Activation}
    (ho : Outermost stack) (path : String) :
    (x.above (.compilation { load := l, path, outer := h } :: stack)).step.Faithful C := by
  obtain ⟨host, world, control, waiting⟩ := x
  obtain rfl := hi.units
  obtain rfl := hi.world
  cases control with
  | running f => cases hdone
  | stuck => exact ⟨.compiling hi hx hus hkeeps hp ho, nofun⟩
  | returning value =>
    cases List.isEmpty_iff.1 hdone
    exact faithful_loadCompiledUnits (m := ⟨h, world, .returning value, stack⟩) hp ho hkeeps hus path
  | raising e | failing e =>
    cases List.isEmpty_iff.1 hdone
    exact faithful_failLoad (m := ⟨h, world, _, stack⟩) hp ho l (by rintro ⟨⟩)

theorem Clear.pending (h : m.Clear) : m.host.pending = none := by
  cases h with
  | plain hp _ => exact hp
  | compiling _ hx _ _ _ _ => exact hx

theorem Clear.waiting (h : m.Clear) {c : Compilation} (hc : .compilation c ∈ m.stack) :
    c.outer.pending = none := by
  cases h with
  | plain _ ho => exact absurd rfl (ho.not_compilation hc c)
  | compiling hi _ _ _ hp ho =>
    rcases List.mem_append.1 hc with hc | hc
    · obtain ⟨f, dest, hcall⟩ := hi.calls _ hc
      cases hcall
    · rcases List.mem_cons.1 hc with heq | hc
      · cases heq
        exact hp
      · exact absurd rfl (ho.not_compilation hc c)

/-- A step leaves nothing pending, and what fails by it has its cause in the machine before. -/
theorem Clear.faithful_step (h : m.Clear) (hdone : m.isDone = false) : m.step.Faithful m.Causes := by
  cases h with
  | plain hp ho => exact faithful_step_of_outermost hp ho hdone
  | @compiling x us w h stack l path hi hx hus hkeeps hp ho =>
    cases hend : x.isDone with
    | true => exact faithful_compiled hend hi hx hus hkeeps hp ho path
    | false =>
      have hstep := faithful_step_of_outermost hx hi.outermost hend
      rw [step_above x _ hend]
      exact ⟨.compiling hi.step hstep.clear.pending hus hkeeps hp ho, hstep.cause⟩

theorem Clear.step (h : m.Clear) : m.step.Clear := by
  cases hdone : m.isDone with
  | true => rwa [step_of_isDone hdone]
  | false => exact (h.faithful_step hdone).clear

/-- However far a run has come, nothing is pending. -/
theorem Clear.run (h : m.Clear) (n : Nat) : (m.run n).Clear :=
  run_induction (P := Clear) (fun _ h => h.step) h n

/-! ### What a refused file comes to -/

theorem dispatch_refused (hp : m.host.pending = none) (hr : m.world.Refuses path e) (l : Load) :
    m.dispatch l path = m.failLoad l (.refusal path e) := by
  obtain ⟨hkind, entry, hopen, hread⟩ := hr
  rw [dispatch, hkind]
  dsimp only
  rw [loadBytecode_of_openEntry hopen, loadStream_refused hp hread]

/-- The load fails, and nothing but its own traces is changed. -/
theorem callBuiltin_refused (hp : m.host.pending = none) (hd : m.Dispatches b name path)
    (hr : m.world.Refuses path e) :
    ∃ (m₁ : Machine) (l : Load), m.callBuiltin b [.str name] = m₁.failLoad l (.refusal path e)
      ∧ m₁.stack = m.stack ∧ m₁.host.units = m.host.units := by
  obtain ⟨hresolve, rfl | ⟨rfl, hfresh⟩⟩ := hd
  · refine ⟨m, m.newLoad none, ?_, rfl, rfl⟩
    show m.load name = _
    rw [load_of_resolve hresolve, dispatch_refused hp hr]
  · refine ⟨m.mapLedger (·.markLoading path), m.newLoad (some path), ?_, rfl, rfl⟩
    show m.require name = _
    rw [require_of_fresh hresolve hfresh]
    exact dispatch_refused (m := m.mapLedger (·.markLoading path)) hp hr _

/-- The frame that has handed over the file gets the failure, and then raises what stands for it. -/
theorem step_refused (hp : m.host.pending = none) (hh : m.HandsOver path)
    (hr : m.world.Refuses path e) :
    ∃ f, m.control = .running f ∧ m.step.control = .failing (.refusal path e)
      ∧ m.step.step.control = .raising
          ((LoadError.refusal path e).toException.leaving (f.location m.host.units)) := by
  obtain ⟨f, dest, b, name, hc, hb, hd⟩ := hh
  obtain ⟨m₁, l, hcall, hstack, hunits⟩ :=
    callBuiltin_refused (m := m.push (.call f dest)) hp hd hr
  have hstep : m.step = m₁.failLoad l (.refusal path e) := by
    rw [step, hc]
    exact (fetch_of_builtinCall? hb).trans hcall
  have hwaiting : m.step.stack = .call f dest :: m.stack := by
    rw [hstep, failLoad_eq]
    exact hstack
  have hcontrol : m.step.control = .failing (.refusal path e) := by
    rw [hstep, failLoad_eq]
  have hsame : m.step.host.units = m.host.units := by
    rw [hstep, failLoad_eq]
    exact hunits
  refine ⟨f, hc, hcontrol, ?_⟩
  rw [step, hcontrol, hwaiting]
  show Control.raising (Exception.leaving _ (f.location m.step.host.units)) = _
  rw [hsame]

end Machine

end ModuleHost
