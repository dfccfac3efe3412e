import ModuleHost.Proofs.Machine.Ending
import ModuleHost.Proofs.Machine.Parts

/-!
# What a step does not look at

Everything a machine does happens at the top of its stack.  Which compiler its host has matters only
where a source is compiled, and what stands in the ledger only where a module is required or the
load of one that was required ends.  `m.elsewhere c g below` is the machine `m` with another
compiler and another ledger, and with `below` waiting under all that waits in `m`.  So every other
operation of the machine does the same there, and a relation that holds between each machine and the
one elsewhere, and is kept by the compilation, is kept by a step (`rel_step`).
-/

namespace ModuleHost

def Host.under (h : Host) (c : Compiler → Compiler) (g : Ledger → Ledger) : Host :=
  { h with compiler := c h.compiler, ledger := g h.ledger }

theorem Host.readUnits_under (h : Host) (c : Compiler → Compiler) (g : Ledger → Ledger)
    (stream : Except Bytecode.StreamFault (List UInt8)) :
    (h.under c g).readUnits stream
      = ((h.readUnits stream).1, (h.readUnits stream).2.under c g) := by
  unfold readUnits
  cases Bytecode.readStream stream <;> rfl

/-- The end of the load leaves the two ledgers as far apart as they were: they are the same, or no
key belongs to the load. -/
def Load.Overlooks (l : Load) (g : Ledger → Ledger) : Prop := l.key = none ∨ g = id

namespace Machine

/-- The machine with another compiler and another ledger, and with `below` waiting under everything
that waits in it. -/
def elsewhere (m : Machine) (c : Compiler → Compiler) (g : Ledger → Ledger)
    (below : List Activation) : Machine :=
  { m with host := m.host.under c g, stack := m.stack ++ below }

def RequiresNext (m : Machine) (f : Frame) : Prop :=
  ∃ u i name args, m.host.units[f.unit]? = some u ∧ u.instructions[f.position]? = some i
    ∧ i.opcode = .call ∧ u.symbol? i.imm = some name
    ∧ f.window? i.src1.toNat i.mode.toNat = some args
    ∧ m.host.functions.get? name = none ∧ m.host.builtin? name = some .require

variable (m : Machine) (c : Compiler → Compiler) (g : Ledger → Ledger) (below : List Activation)

section Fields

@[simp] theorem elsewhere_world : (m.elsewhere c g below).world = m.world := rfl

@[simp] theorem elsewhere_units : (m.elsewhere c g below).host.units = m.host.units := rfl

@[simp] theorem elsewhere_functions :
    (m.elsewhere c g below).host.functions = m.host.functions := rfl

@[simp] theorem elsewhere_builtin? (name : String) :
    (m.elsewhere c g below).host.builtin? name = m.host.builtin? name := rfl

@[simp] theorem elsewhere_searchPath :
    (m.elsewhere c g below).host.searchPath = m.host.searchPath := rfl

@[simp] theorem elsewhere_config : (m.elsewhere c g below).host.config = m.host.config := rfl

end Fields

/-! ### Loading -/

theorem enter_elsewhere (unit : Nat) (scope : Scope) (args : List Value) (receiver : Value) :
    (m.elsewhere c g below).enter unit scope args receiver
      = (m.enter unit scope args receiver).elsewhere c g below := by
  unfold enter
  by_cases h : m.host.depth ≥ Host.maxDepth
  · rw [if_pos h, if_pos (show (m.elsewhere c g below).host.depth ≥ Host.maxDepth from h)]
    rfl
  · rw [if_neg h, if_neg (show ¬ (m.elsewhere c g below).host.depth ≥ Host.maxDepth from h)]
    rfl

theorem enterTopLevel_elsewhere (unit : Nat) :
    (m.elsewhere c g below).enterTopLevel unit = (m.enterTopLevel unit).elsewhere c g below :=
  enter_elsewhere m c g below unit .topLevel [] .main

section Loads

variable {l : Load} (hl : l.Overlooks g)

include hl

theorem finishLoad_elsewhere :
    (m.elsewhere c g below).finishLoad l = (m.finishLoad l).elsewhere c g below := by
  rw [finishLoad_eq, finishLoad_eq]
  rcases hl with hkey | rfl
  · rw [hkey]
    rfl
  · rfl

theorem failLoad_elsewhere (e : LoadError) :
    (m.elsewhere c g below).failLoad l e = (m.failLoad l e).elsewhere c g below := by
  rw [failLoad_eq, failLoad_eq]
  rcases hl with hkey | rfl
  · rw [hkey]
    rfl
  · rfl

theorem loadStream_elsewhere (path attribution : String)
    (stream : Except Bytecode.StreamFault (List UInt8)) :
    (m.elsewhere c g below).loadStream l path attribution stream
      = (m.loadStream l path attribution stream).elsewhere c g below := by
  have hread := m.host.readUnits_under c g stream
  rcases hr : m.host.readUnits stream with ⟨result, host⟩
  rw [hr] at hread
  have hr' : (m.elsewhere c g below).host.readUnits stream = (result, host.under c g) := hread
  simp only [loadStream, hr, hr']
  cases result with
  | ok root =>
    exact enterTopLevel_elsewhere ({ m with
      host := ((host.restoreArena l.arenaMark).attributeFrom root (some attribution)).modifyUnit root
        CodeUnit.finalize }.push (.load l)) c g below root
  | error e =>
    have hpending : ((host.under c g).restoreArena l.arenaMark).pending
        = (host.restoreArena l.arenaMark).pending := rfl
    dsimp only
    rw [hpending]
    cases (host.restoreArena l.arenaMark).pending with
    | some exception =>
      exact failLoad_elsewhere
        { m with host := { host.restoreArena l.arenaMark with pending := none } } c g below hl _
    | none =>
      exact failLoad_elsewhere { m with host := host.restoreArena l.arenaMark } c g below hl _

theorem loadBytecode_elsewhere (path attribution : String) :
    (m.elsewhere c g below).loadBytecode l path attribution
      = (m.loadBytecode l path attribution).elsewhere c g below := by
  simp only [loadBytecode, elsewhere_world]
  cases m.world.files.openEntry m.world.cwd path with
  | ok entry => exact loadStream_elsewhere m c g below hl path attribution _
  | error e => exact failLoad_elsewhere m c g below hl _

theorem loadCompiledUnits_elsewhere (path : String) (units : List CodeUnit) :
    (m.elsewhere c g below).loadCompiledUnits l path units
      = (m.loadCompiledUnits l path units).elsewhere c g below := by
  unfold loadCompiledUnits
  cases l.artifact with
  | none => exact failLoad_elsewhere m c g below hl _
  | some a =>
    cases Bytecode.write? units with
    | none => exact failLoad_elsewhere m c g below hl _
    | some bytes =>
      exact loadStream_elsewhere { m with world := m.world.writeArtifact a bytes } c g below hl a.path
        path _

end Loads

section Relation

variable {R : Machine → Machine → Prop}
  (hsame : ∀ {x y : Machine}, y = x.elsewhere c g below → R x y)
  (hcompile : ∀ (x : Machine) (l : Load) (path source : String), l.Overlooks g →
    R (x.compileAndLoad l path source) ((x.elsewhere c g below).compileAndLoad l path source))

include hsame hcompile

theorem rel_loadSource {l : Load} (hl : l.Overlooks g) (path : String) :
    R (m.loadSource l path) ((m.elsewhere c g below).loadSource l path) := by
  simp only [loadSource, elsewhere_world, elsewhere_config]
  cases m.world.readText path with
  | error e => exact hsame (failLoad_elsewhere m c g below hl _)
  | ok source =>
    rcases m.world.createArtifact m.host.config with ⟨result, world⟩
    cases result with
    | error e => exact hsame (failLoad_elsewhere { m with world } c g below hl _)
    | ok artifact => exact hcompile { m with world } _ path source hl

theorem rel_dispatch {l : Load} (hl : l.Overlooks g) (path : String) :
    R (m.dispatch l path) ((m.elsewhere c g below).dispatch l path) := by
  unfold dispatch
  cases ModuleKind.ofPath path with
  | error reason => exact hsame (failLoad_elsewhere m c g below hl _)
  | ok kind =>
    cases kind with
    | compiled => exact hsame (loadBytecode_elsewhere m c g below hl path path)
    | source => exact rel_loadSource m c g below hsame hcompile hl path
    | native => exact hsame (failLoad_elsewhere m c g below hl _)

theorem rel_load (name : String) : R (m.load name) ((m.elsewhere c g below).load name) := by
  simp only [load, elsewhere_world, elsewhere_searchPath]
  cases m.world.resolve m.host.searchPath name with
  | error e => exact hsame rfl
  | ok path => exact rel_dispatch m c g below hsame hcompile (Or.inl rfl) path

/-- The same module is required where the ledgers are the same. -/
theorem rel_require (hg : g = id) (name : String) :
    R (m.require name) ((m.elsewhere c g below).require name) := by
  subst hg
  have hledger : (m.elsewhere c id below).host.ledger = m.host.ledger := rfl
  simp only [require, elsewhere_world, elsewhere_searchPath, hledger]
  cases m.world.resolve m.host.searchPath name with
  | error e => exact hsame rfl
  | ok path =>
    dsimp only
    cases m.host.ledger.begin? path with
    | none => exact hsame rfl
    | some ledger =>
      exact rel_dispatch { m with host := _ } c id below hsame hcompile (Or.inr rfl) path

/-! ### Executing an instruction -/

omit hcompile in
theorem rel_withName (args : List Value) {run run' : String → Machine}
    (h : ∀ name, R (run name) (run' name)) :
    R (m.withName args run) ((m.elsewhere c g below).withName args run') := by
  unfold withName
  cases nameArgument args with
  | ok name => exact h name
  | error e => exact hsame rfl

theorem rel_callBuiltin {b : Builtin} (hb : b = .require → g = id) (args : List Value) :
    R (m.callBuiltin b args) ((m.elsewhere c g below).callBuiltin b args) := by
  cases b with
  | print => exact hsame rfl
  | load =>
    exact rel_withName m c g below hsame args (rel_load m c g below hsame hcompile)
  | require =>
    exact rel_withName m c g below hsame args (rel_require m c g below hsame hcompile (hb rfl))
  | addLoadPath => exact rel_withName m c g below hsame args fun _ => hsame rfl

theorem rel_callByName (f : Frame) (dest : UInt8) {name : String}
    (hb : m.host.functions.get? name = none → m.host.builtin? name = some .require → g = id)
    (args : List Value) :
    R (m.callByName f dest name args) ((m.elsewhere c g below).callByName f dest name args) := by
  simp only [callByName, elsewhere_functions, elsewhere_builtin?]
  cases hf : m.host.functions.get? name with
  | some unit => exact hsame (enter_elsewhere (m.push (.call f dest)) c g below _ _ _ _)
  | none =>
    cases hn : m.host.builtin? name with
    | some b =>
      refine rel_callBuiltin (m.push (.call f dest)) c g below hsame hcompile ?_ args
      rintro rfl
      exact hb hf hn
    | none => exact hsame rfl

theorem rel_execute? {f : Frame} {u : CodeUnit} {i : Instruction}
    (hu : m.host.units[f.unit]? = some u) (hi : u.instructions[f.position]? = some i)
    (hb : m.RequiresNext f → g = id) :
    Option.Rel R (m.execute? f u i) ((m.elsewhere c g below).execute? f u i) := by
  have hparts : Parts R m (m.elsewhere c g below) f f u u i := {
    goesOn := fun hs _ _ => by cases hs <;> exact hsame rfl
    jumps := fun _ _ => hsame rfl
    binds := fun _ _ _ => hsame rfl
    calls := fun hop hn ha => by
      refine rel_callByName m c g below hsame hcompile f _ (fun hf hrequire => ?_) _
      exact hb ⟨u, i, _, _, hu, hi, hop, hn, ha, hf, hrequire⟩
    raises := fun _ => hsame rfl
    returns := fun _ _ => hsame rfl
    halts := fun _ => hsame rfl }
  exact hparts.execute?

theorem rel_fetch {f : Frame} (hb : m.RequiresNext f → g = id) :
    R (m.fetch f) ((m.elsewhere c g below).fetch f) := by
  simp only [fetch, elsewhere_units]
  cases hu : m.host.units[f.unit]? with
  | none => exact hsame rfl
  | some u =>
    dsimp only
    cases hi : u.instructions[f.position]? with
    | none => exact hsame rfl
    | some i =>
      have hrel := rel_execute? m c g below hsame hcompile hu hi hb
      dsimp only
      generalize m.execute? f u i = x, (m.elsewhere c g below).execute? f u i = y at hrel
      cases hrel with
      | none => exact hsame rfl
      | some hxy => exact hxy

end Relation

/-! ### Handing on a result -/

theorem resume_elsewhere (f : Frame) (dest : UInt8) (value : Value) :
    (m.elsewhere c g below).resume f dest value = (m.resume f dest value).elsewhere c g below := by
  unfold resume assign?
  by_cases h : m.host.halted = true
  · rw [if_pos h, if_pos (show (m.elsewhere c g below).host.halted = true from h)]
    rfl
  · rw [if_neg h, if_neg (show ¬ (m.elsewhere c g below).host.halted = true from h)]
    cases f.write? dest value with
    | none => rfl
    | some f' => rfl

section Results

variable {a : Activation} (ha : ∀ k, a ≠ .compilation k) (hl : ∀ l, a = .load l → l.Overlooks g)

include ha hl

theorem returnTo_elsewhere (value : Value) :
    (m.elsewhere c g below).returnTo value a = (m.returnTo value a).elsewhere c g below := by
  cases a with
  | call f dest => exact resume_elsewhere m c g below f dest value
  | load l => exact finishLoad_elsewhere m c g below (hl l rfl)
  | compilation k => exact absurd rfl (ha k)

theorem raiseTo_elsewhere (e : Exception) :
    (m.elsewhere c g below).raiseTo e a = (m.raiseTo e a).elsewhere c g below := by
  cases a with
  | call f dest => rfl
  | load l => exact failLoad_elsewhere m c g below (hl l rfl) _
  | compilation k => exact absurd rfl (ha k)

end Results

/-- A step does the same on the machine elsewhere, unless it hands a result to a compilation, or
looks at the ledger where that is another one. -/
theorem rel_step {R : Machine → Machine → Prop}
    (hsame : ∀ {x y : Machine}, y = x.elsewhere c g below → R x y)
    (hcompile : ∀ (x : Machine) (l : Load) (path source : String), l.Overlooks g →
      R (x.compileAndLoad l path source) ((x.elsewhere c g below).compileAndLoad l path source))
    (h : m.isDone = false) (htop : ∀ k, m.stack.head? ≠ some (.compilation k))
    (hload : ∀ l, m.stack.head? = some (.load l) → l.Overlooks g)
    (hb : ∀ f, m.control = .running f → m.RequiresNext f → g = id) :
    R m.step (m.elsewhere c g below).step := by
  obtain ⟨host, world, control, stack⟩ := m
  cases control with
  | running f => exact rel_fetch _ c g below hsame hcompile (hb f rfl)
  | stuck => cases h
  | returning value =>
    cases stack with
    | nil => cases h
    | cons a stack =>
      exact hsame (returnTo_elsewhere { host, world, control := _, stack } c g below
        (fun k hk => htop k (congrArg some hk)) (fun l hl => hload l (congrArg some hl)) value)
  | raising e =>
    cases stack with
    | nil => cases h
    | cons a stack =>
      exact hsame (raiseTo_elsewhere { host, world, control := _, stack } c g below
        (fun k hk => htop k (congrArg some hk)) (fun l hl => hload l (congrArg some hl)) e)
  | failing e =>
    cases stack with
    | nil => cases h
    | cons a stack =>
      exact hsame (raiseTo_elsewhere { host, world, control := _, stack } c g below
        (fun k hk => htop k (congrArg some hk)) (fun l hl => hload l (congrArg some hl))
        e.toException)

end Machine

end ModuleHost
