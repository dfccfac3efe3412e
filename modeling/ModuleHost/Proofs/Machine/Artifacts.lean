import ModuleHost.Proofs.Loading.Carried
import ModuleHost.Proofs.Machine.Dispatched
import ModuleHost.Proofs.Machine.Executed

/-!
# The temporary files of a machine

Every temporary file belongs to a load that waits on the stack, or to the compilation that such a
load waits for.  They are made, written and removed from the top of the stack, so at every moment
the world is the one before the run with the files of the stack on top (`Machine.Carries.run`); when
nothing waits any more the files are those from before the run.
-/

namespace ModuleHost

def Activation.artifact? : Activation → Option Artifact
  | .call _ _ => none
  | .load l => l.artifact
  | .compilation c => c.load.artifact

namespace Machine

def artifacts (stack : List Activation) : List Artifact := stack.filterMap Activation.artifact?

theorem artifacts_cons (a : Activation) (stack : List Activation) :
    artifacts (a :: stack) = a.artifact?.toList ++ artifacts stack := by
  rw [artifacts, List.filterMap_cons]
  cases a.artifact? <;> rfl

def Resolves (m : Machine) (name : String) : Prop :=
  ∃ f dest b, m.control = .running f ∧ m.builtinCall? f = some (dest, b, [.str name])
    ∧ (b = .load ∨ b = .require)

/-- The next step resolves a name to the temporary file of a load in progress. -/
def ResolvesArtifact (m : Machine) : Prop :=
  ∃ name path, m.Resolves name ∧ m.world.resolve m.host.searchPath name = .ok path
    ∧ ∃ a ∈ artifacts m.stack, m.world.Names path a

def CanCreate (m : Machine) : Prop := ∃ a w, m.world.createArtifact m.host.config = (.ok a, w)

/-- The world is `w₀` with the temporary files of the stack, and with `artifact?` on top of them. -/
structure CarriesOver (config : LoaderConfig) (w₀ : World) (artifact? : Option Artifact)
    (m : Machine) : Prop where
  world : World.Carries config w₀ (artifact?.toList ++ artifacts m.stack) m.world
  host : m.host.config = config
  outer : ∀ c, Activation.compilation c ∈ m.stack → c.outer.config = config

/-- The world is `w₀` with the temporary files of the stack. -/
abbrev Carries (config : LoaderConfig) (w₀ : World) (m : Machine) : Prop :=
  m.CarriesOver config w₀ none

section

variable {config : LoaderConfig} {w₀ : World} {m m' : Machine} {l : Load} {f : Frame}
  {artifact? : Option Artifact}

theorem carries_idle (h : Host) (w : World) : (idle h w).Carries h.config w :=
  ⟨.refl h.config w, rfl, nofun⟩

theorem CarriesOver.congr (h : m.CarriesOver config w₀ artifact?)
    (hconfig : m'.host.config = m.host.config) (hworld : m'.world = m.world)
    (hstack : m'.stack = m.stack) : m'.CarriesOver config w₀ artifact? where
  world := by
    rw [hworld, hstack]
    exact h.world
  host := hconfig.trans h.host
  outer := by
    rw [hstack]
    exact h.outer

theorem Carries.push_call (h : m.Carries config w₀) (f : Frame) (dest : UInt8) :
    (m.push (.call f dest)).Carries config w₀ where
  world := h.world
  host := h.host
  outer c hc := h.outer c ((List.mem_cons.1 hc).resolve_left nofun)

/-- The temporary file passes to the load that now waits. -/
theorem CarriesOver.push_load (h : m.CarriesOver config w₀ l.artifact) :
    (m.push (.load l)).Carries config w₀ where
  world := by
    have hworld := h.world
    exact (artifacts_cons (.load l) m.stack).symm ▸ hworld
  host := h.host
  outer c hc := h.outer c ((List.mem_cons.1 hc).resolve_left nofun)

theorem Carries.enter (h : m.Carries config w₀) (unit : Nat) (scope : Scope) (args : List Value)
    (receiver : Value) : (m.enter unit scope args receiver).Carries config w₀ := by
  unfold Machine.enter
  split
  · exact h.congr rfl rfl rfl
  · exact h.congr rfl rfl rfl

/-! ### Loads -/

/-- At the end of its load the temporary file is removed. -/
theorem CarriesOver.discard (h : m.CarriesOver config w₀ artifact?) :
    World.Carries config w₀ (artifacts m.stack) (m.world.discard artifact?) := by
  cases artifact? with
  | none => exact h.world
  | some a => exact h.world.removed

theorem CarriesOver.failLoad (h : m.CarriesOver config w₀ l.artifact) (e : LoadError) :
    (m.failLoad l e).Carries config w₀ := by
  rw [failLoad_eq]
  exact ⟨h.discard, h.host, h.outer⟩

theorem CarriesOver.finishLoad (h : m.CarriesOver config w₀ l.artifact) :
    (m.finishLoad l).Carries config w₀ := by
  rw [finishLoad_eq]
  exact ⟨h.discard, h.host, h.outer⟩

theorem CarriesOver.loadStream (h : m.CarriesOver config w₀ l.artifact) (path attribution : String)
    (stream : Except Bytecode.StreamFault (List UInt8)) :
    (m.loadStream l path attribution stream).Carries config w₀ := by
  cases hr : Bytecode.readStream stream with
  | ok units =>
    rw [loadStream_of_ok m l hr]
    refine Carries.enter ?_ _ _ _ _
    refine CarriesOver.push_load ?_
    exact h.congr rfl rfl rfl
  | error e =>
    rw [loadStream_of_error m l hr]
    refine CarriesOver.failLoad ?_ _
    exact h.congr rfl rfl rfl

theorem CarriesOver.loadCompiledUnits (h : m.CarriesOver config w₀ l.artifact) (path : String)
    (units : List CodeUnit) : (m.loadCompiledUnits l path units).Carries config w₀ := by
  unfold Machine.loadCompiledUnits
  cases ha : l.artifact with
  | none => exact h.failLoad _
  | some a =>
    cases Bytecode.write? units with
    | none => exact h.failLoad _
    | some bytes =>
      have hworld := h.world
      rw [ha] at hworld
      refine CarriesOver.loadStream (m := { m with world := m.world.writeArtifact a bytes })
        ⟨?_, h.host, h.outer⟩ _ _ _
      rw [ha]
      exact hworld.written bytes

theorem CarriesOver.compileAndLoad (h : m.CarriesOver config w₀ l.artifact)
    (path source : String) : (m.compileAndLoad l path source).Carries config w₀ := by
  unfold Machine.compileAndLoad
  cases Assembly.assemble source path with
  | error e => exact h.failLoad _
  | ok units =>
    dsimp only
    split
    · refine Carries.enter ⟨?_, ?_, ?_⟩ _ _ _ _
      · have hworld := h.world
        exact (artifacts_cons (.compilation { load := l, path, outer := m.host }) m.stack).symm
          ▸ hworld
      · exact h.host
      · intro c hc
        rcases List.mem_cons.1 hc with heq | hc
        · rw [Activation.compilation.inj heq]
          exact h.host
        · exact h.outer c hc
    · exact h.loadCompiledUnits path units

theorem Carries.handed (h : m.Carries config w₀) {key : Option String} {path : String}
    (hd : Handed m (m.newLoad key) path m') : m'.Carries config w₀ := by
  have hprepared : ∀ {m₁ : Machine} {l₁ : Load}, Prepared m (m.newLoad key) m₁ l₁ →
      m₁.CarriesOver config w₀ l₁.artifact := by
    intro m₁ l₁ hp
    cases hp with
    | plain => exact h
    | missed hc => exact ⟨h.world.missed (h.host ▸ hc), h.host, h.outer⟩
    | made hc => exact ⟨h.world.made (h.host ▸ hc), h.host, h.outer⟩
  cases hd with
  | fails hp => exact (hprepared hp).failLoad _
  | streams => exact (hprepared .plain).loadStream path path _
  | compiles _ hc => exact (hprepared (.made hc)).compileAndLoad path _

/-! ### Steps -/

theorem Carries.callBuiltin (h : m.Carries config w₀) (b : Builtin) (args : List Value) :
    (m.callBuiltin b args).Carries config w₀ := by
  generalize m.callBuiltin b args = m', callBuiltin_cases m b args = hc
  cases hc with
  | prints | adds | refuses | unresolved | known => exact h.congr rfl rfl rfl
  | loads => exact h.handed (dispatch_handed m _ _)
  | @requires name path =>
    have hledger : (m.mapLedger (·.markLoading path)).Carries config w₀ := h.congr rfl rfl rfl
    exact hledger.handed (dispatch_handed _ _ path)

theorem Carries.load (h : m.Carries config w₀) (name : String) : (m.load name).Carries config w₀ :=
  h.callBuiltin .load [.str name]

theorem Carries.require (h : m.Carries config w₀) (name : String) :
    (m.require name).Carries config w₀ :=
  h.callBuiltin .require [.str name]

theorem Effect.config_eq {u : CodeUnit} {h h' : Host} (he : Effect f u h h') :
    h'.config = h.config := by
  cases he <;> rfl

theorem Carries.fetch (h : m.Carries config w₀) (f : Frame) : (m.fetch f).Carries config w₀ := by
  cases hb : m.builtinCall? f with
  | some call =>
    obtain ⟨dest, b, args⟩ := call
    rw [fetch_of_builtinCall? hb]
    exact (h.push_call f dest).callBuiltin b args
  | none =>
    generalize m.fetch f = m', fetch_executed hb = he
    cases he with
    | goesOn _ heffect _ _ _ => exact h.congr heffect.config_eq rfl rfl
    | calls dest args _ => exact (h.push_call f dest).enter _ _ _ _
    | returns | halts | raises | lost | stuck => exact h.congr rfl rfl rfl

/-- What waits on top is taken off the stack, and leaves its temporary file. -/
theorem Carries.pop (h : m.Carries config w₀) {a : Activation} {stack : List Activation}
    (hstack : m.stack = a :: stack) : { m with stack }.CarriesOver config w₀ a.artifact? where
  world := by
    have hworld := h.world
    rw [hstack, artifacts_cons] at hworld
    exact hworld
  host := h.host
  outer c hc := h.outer c (hstack ▸ List.mem_cons_of_mem a hc)

theorem Carries.returnTo (h : m.Carries config w₀) {a : Activation} {stack : List Activation}
    (hstack : m.stack = a :: stack) (value : Value) :
    ({ m with stack }.returnTo value a).Carries config w₀ := by
  have hpop := h.pop hstack
  cases a with
  | load l => exact hpop.finishLoad
  | compilation c =>
    exact CarriesOver.loadCompiledUnits (m := { m with host := c.outer, stack }) (l := c.load)
      ⟨hpop.world, h.outer c (hstack ▸ List.mem_cons_self), hpop.outer⟩ _ _
  | call f dest =>
    show ({ m with stack }.resume f dest value).Carries config w₀
    unfold resume assign?
    split
    · exact hpop.congr rfl rfl rfl
    · cases f.write? dest value with
      | none => exact hpop.congr rfl rfl rfl
      | some f' => exact hpop.congr rfl rfl rfl

theorem Carries.raiseTo (h : m.Carries config w₀) {a : Activation} {stack : List Activation}
    (hstack : m.stack = a :: stack) (e : Exception) :
    ({ m with stack }.raiseTo e a).Carries config w₀ := by
  have hpop := h.pop hstack
  cases a with
  | load l => exact hpop.failLoad _
  | compilation c =>
    exact CarriesOver.failLoad (m := { m with host := c.outer, stack }) (l := c.load)
      ⟨hpop.world, h.outer c (hstack ▸ List.mem_cons_self), hpop.outer⟩ _
  | call f dest => exact hpop.congr rfl rfl rfl

theorem Carries.step (h : m.Carries config w₀) : m.step.Carries config w₀ := by
  obtain ⟨host, world, control, stack⟩ := m
  cases control with
  | running f => exact h.fetch f
  | stuck => exact h
  | returning value =>
    cases stack with
    | nil => exact h
    | cons a stack => exact h.returnTo rfl value
  | raising e =>
    cases stack with
    | nil => exact h
    | cons a stack => exact h.raiseTo rfl e
  | failing e =>
    cases stack with
    | nil => exact h
    | cons a stack => exact h.raiseTo rfl e.toException

/-- When nothing waits the files are those of `w₀`. -/
theorem Carries.files_eq (h : m.Carries config w₀) (hstack : m.stack = []) :
    m.world.files = w₀.files := by
  have hfiles := h.world.files
  rw [hstack] at hfiles
  exact hfiles.eq_base

/-- However far a run has come, the world is the one before with the temporary files of the
stack. -/
theorem Carries.run (h : m.Carries config w₀) (n : Nat) : (m.run n).Carries config w₀ :=
  run_induction (P := Carries config w₀) (fun _ h => h.step) h n

end

end Machine

end ModuleHost
