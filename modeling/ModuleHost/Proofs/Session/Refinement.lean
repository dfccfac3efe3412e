import ModuleHost.Proofs.Machine.Abreast
import ModuleHost.Proofs.Machine.Outcome
import ModuleHost.Proofs.Session.Safety

/-!
# Loading a source is running its units

A source is loaded by way of a temporary file, from which its units are read back.  All that comes
of this is what comes of putting the units that it is assembled into behind those of the host and
running the first of them (`loadSource_refines_invoke`): the one run ends if the other one does,
with the same result, the same host and the same files.
-/

namespace ModuleHost

open Machine

/-- What a load comes to if the first unit comes to this. -/
def loadResult : Except Exception Value → Except LoadError Bool
  | .ok _ => .ok true
  | .error e => .error (.raised e)

namespace Machine

/-- Loading the source at the path has begun; `loadSourceFile` runs this machine. -/
def startSource (h : Host) (w : World) (path : String) : Machine :=
  let m := idle h w
  m.loadSource (m.newLoad none) path

/-- The units stand behind those of the host, attributed to the path and the first one finalized,
and the first one has been invoked at top level; `invoke` runs this machine. -/
def startUnits (h : Host) (w : World) (path : String) (us : List CodeUnit) : Machine :=
  (idle (h.appendUnits (CodeUnit.placed path us)) w).enter h.units.length .topLevel [] .main

def startLoad (h : Host) (w : World) (path : String) (us : List CodeUnit)
    (artifact? : Option Artifact) : Machine :=
  (startUnits h w path us).above [.load { (idle h w).newLoad none with artifact := artifact? }]

def artifactLoad (h : Host) (a : Artifact) : Load := { arenaMark := h.arena.length, artifact := some a }

/-- The units run in a host of their own, as a compiler of the host `h` runs them. -/
def startApart (h : Host) (w : World) (us : List CodeUnit) : Machine :=
  (idle (h.isolated.appendUnits us) w).enterTopLevel 0

/-- The load has come to what the invocation has come to, and has cut the arena back.  A frame that
names a register which does not exist has neither a result nor a host that is left. -/
structure LoadsAs (m : Machine) (arenaMark : Nat) (m' : Machine) : Prop where
  done : m.isDone = true
  result : m.loaded? = m'.value?.map loadResult
  host : m'.value?.isSome = true → m.host = m'.host.restoreArena arenaMark
  files : m'.value?.isSome = true → m.world.files = m'.world.files

end Machine

/-! ### The same host twice -/

/-- Hosts that differ in nothing, while the second one is a temporary file behind. -/
def Likeness.behind (config : LoaderConfig) (w₀ : World) : Likeness where
  counters := World.Lags config w₀
  sameWorld := False
  first_le := zero_le_length_nil
  second_le := zero_le_length_nil
  alike := .nil
  entries_refl _ := rfl
  counters_refl := False.elim

def Likeness.inWorlds : Likeness where
  sameWorld := False
  first_le := zero_le_length_nil
  second_le := zero_le_length_nil
  alike := .nil
  entries_refl _ := rfl
  counters_refl := False.elim

variable {config : LoaderConfig} {w w₀ : World} {h h' : Host}

open Likeness (behind)

theorem Host.Alike.refl (h : Host) : h.Alike (behind config w₀) h := .of_units rfl rfl h h.units

theorem Host.Alike.eq (ha : h.Alike (behind config w₀) h') : h' = h := by
  have hfunctions := ha.functions_eq rfl rfl
  cases ha with
  | @mk us functions hunits _ =>
    have hu : h.units = us := hunits
    have hf : functions = h.functions := hfunctions
    rw [hf, ← hu]
    rfl

/-! ### The end of the load -/

theorem Machine.loadsAs_finishLoad {x y : Machine} {l : Load} (hstack : x.stack = [])
    (hkey : l.key = none) {value : Value} (hvalue : y.value? = some (.ok value))
    (hhost : y.host = x.host) (hfiles : (x.finishLoad l).world.files = y.world.files) :
    (x.finishLoad l).LoadsAs l.arenaMark y := by
  refine ⟨?_, ?_, fun _ => ?_, fun _ => hfiles⟩
  · rw [finishLoad_eq, isDone, hstack]
    rfl
  · rw [finishLoad_eq, hvalue]
    rfl
  · rw [finishLoad_eq, hhost, hkey]
    rfl

theorem Machine.loadsAs_failLoad {x y : Machine} {l : Load} (hstack : x.stack = [])
    (hkey : l.key = none) {e : Exception} (hvalue : y.value? = some (.error e))
    (hhost : y.host = x.host)
    (hfiles : (x.failLoad l (.raised e)).world.files = y.world.files) :
    (x.failLoad l (.raised e)).LoadsAs l.arenaMark y := by
  refine ⟨?_, ?_, fun _ => ?_, fun _ => hfiles⟩
  · rw [failLoad_eq, isDone, hstack]
    rfl
  · rw [failLoad_eq, hvalue]
    rfl
  · rw [failLoad_eq, hhost, hkey]
    rfl

theorem Machine.loadsAs_of_stuck {x y : Machine} (hx : x.control = .stuck)
    (hy : y.control = .stuck) (arenaMark n : Nat) : (x.run n).LoadsAs arenaMark y := by
  have hdone : x.isDone = true := by rw [isDone, hx]
  have hvalue : y.value? = none := by rw [value?, hy]
  rw [run_of_isDone hdone]
  refine ⟨hdone, ?_, fun hsome => ?_, fun hend => ?_⟩
  · rw [hvalue, loaded?, hx]
    rfl
  · rw [hvalue] at hsome
    cases hsome
  · rw [hvalue] at hend
    cases hend

/-- A load ends with what has come to its end above it. -/
theorem Machine.loadsAs_of_isDone {x y : Machine} {l : Load} (ha : x.Abreast (behind config w₀) y)
    (hx : (x.above [.load l]).Carries config w) (hy : y.Carries config w) (hdone : x.isDone = true)
    (hkey : l.key = none) (n : Nat) :
    ((x.above [.load l]).run (n + 1)).LoadsAs l.arenaMark y := by
  rcases ha.alike_or_stuck hdone with ha | ⟨hstuck, hstuck'⟩
  swap
  · exact loadsAs_of_stuck (x := x.above [.load l]) hstuck hstuck' _ _
  have hvalue := (Abreast.alike ha).value?_eq rfl
  have hhost := ha.host.eq
  have hstack := ha.stack
  -- once the load has ended nothing waits in either machine
  have hfiles : x.stack = [] → (x.above [.load l]).step.stack = [] →
      (x.above [.load l]).step.world.files = y.world.files := by
    intro hempty hend
    rw [hempty] at hstack
    rw [Carries.files_eq hx.step hend, hy.files_eq (List.forall₂_nil_left_iff.1 hstack)]
  obtain ⟨host, world, control, stack⟩ := x
  rw [run_succ]
  cases control with
  | running f => cases hdone
  | stuck =>
    have hstuck : Control.Alike (behind config w₀) .stuck y.control := ha.control
    generalize hy' : y.control = control' at hstuck
    cases hstuck
    exact loadsAs_of_stuck rfl hy' _ _
  | returning value =>
    obtain rfl : stack = [] := List.isEmpty_iff.1 hdone
    have hstep : (Machine.above ⟨host, world, .returning value, []⟩ [.load l]).step
        = Machine.finishLoad ⟨host, world, .returning value, []⟩ l := rfl
    rw [hstep] at hfiles ⊢
    rw [run_finishLoad rfl]
    refine loadsAs_finishLoad rfl hkey hvalue hhost (hfiles rfl ?_)
    rw [finishLoad_eq]
  | raising e | failing e =>
    obtain rfl : stack = [] := List.isEmpty_iff.1 hdone
    rw [show (Machine.above ⟨host, world, _, []⟩ [.load l]).step
      = Machine.failLoad ⟨host, world, _, []⟩ l _ from rfl] at hfiles ⊢
    rw [run_failLoad rfl]
    refine loadsAs_failLoad rfl hkey hvalue hhost (hfiles rfl ?_)
    rw [failLoad_eq]

/-- A load and a run that is alike what has been loaded end together. -/
theorem Machine.loadsAs_run {x y : Machine} {l : Load}
    (habreast : ∀ k, (x.run k).Abreast (behind config w₀) (y.run k))
    (hcarries : (x.above [.load l]).Carries config w) (hcarries' : y.Carries config w)
    (hkey : l.key = none) (n : Nat) :
    (((x.above [.load l]).run n).isDone = true → (y.run n).isDone = true)
      ∧ ((y.run n).isDone = true →
        ((x.above [.load l]).run (n + 1)).LoadsAs l.arenaMark (y.run n)) := by
  constructor
  · intro hdone
    rw [(habreast n).isDone]
    cases hx : (x.run n).isDone with
    | true => rfl
    | false =>
      rw [run_above_of_not_isDone hx, isDone_above hx] at hdone
      cases hdone
  · intro hdone
    rw [(habreast n).isDone] at hdone
    obtain ⟨k, hk, hend, habove⟩ := exists_run_above_of_isDone hdone [.load l]
    have hx := hcarries.run k
    rw [habove] at hx
    -- after `k` steps the run without the load stands still
    have hstill : y.run n = y.run k := by
      rw [← Nat.add_sub_cancel' hk, run_add, run_of_isDone ((habreast k).isDone.trans hend)]
    have hlength : n + 1 = k + (n - k + 1) := by omega
    rw [hstill, hlength, run_add, habove]
    exact loadsAs_of_isDone (habreast k) hx (hcarries'.run k) hend hkey (n - k)

/-! ### The two runs -/

section

variable {path source : String} {us : List CodeUnit} {a : Artifact} {world : World}

theorem Machine.startSource_of_error (hread : w.readText path = .ok source)
    (hcreate : w.createArtifact h.config = (.ok a, world)) {e : Assembly.Error}
    (herror : Assembly.assemble source path = .error e) :
    (startSource h w path).isDone = true
      ∧ (startSource h w path).loaded? = some (.error (.uncompiled path e.message))
      ∧ (startSource h w path).host = h := by
  rw [startSource, loadSource_of_error (m := idle h w) hread hcreate herror, failLoad_eq]
  exact ⟨rfl, rfl, h.restoreArena_length⟩

section

variable (hcompiler : h.compiler = .onRequest) (hread : w.readText path = .ok source)
  (hcreate : w.createArtifact h.config = (.ok a, world))
  (hunits : Assembly.assemble source path = .ok us) {bytes : List UInt8}
  (hw : Bytecode.write? us = some bytes)

include hcompiler hread hcreate hunits hw

/-- The units of a source run at once if they have not been run to compile it. -/
theorem Machine.startSource_eq_startLoad :
    startSource h w path = startLoad h (world.writeArtifact a bytes) path us (some a) := by
  rw [startSource, loadSource_of_ok (m := idle h w) hread hcreate hunits hcompiler hw rfl,
    startLoad, startUnits, ← enter_above]
  rfl

/-- The load of a source waits below the run of its units. -/
theorem Machine.startSource_of_ok : ∃ l : Load, l.key = none ∧ l.arenaMark = h.arena.length
    ∧ startSource h w path
        = (startUnits h (world.writeArtifact a bytes) path us).above [.load l] :=
  ⟨_, rfl, rfl, startSource_eq_startLoad hcompiler hread hcreate hunits hw⟩

end

/-- Units that are run to compile them run in a host of their own, above the host that waits. -/
theorem Machine.startSource_eq_above (hcompiler : h.compiler = .always)
    (hread : w.readText path = .ok source) (hcreate : w.createArtifact h.config = (.ok a, world))
    (hunits : Assembly.assemble source path = .ok us) :
    startSource h w path
      = (startApart h world us).above [.compilation { load := artifactLoad h a, path, outer := h }] := by
  have hexecutes : (idle h w).host.compiler.executes .declare = true := by
    show h.compiler.executes .declare = true
    rw [hcompiler]
    rfl
  rw [startSource, loadSource_eq (m := idle h w) hread hcreate, compileAndLoad, hunits]
  dsimp only
  rw [if_pos hexecutes, push_eq_above, enterTopLevel_above]
  rfl

/-- The units begin to run alike in the world with the temporary file. -/
theorem Machine.alike_startUnits (hcreate : w.createArtifact h.config = (.ok a, world))
    (bytes : List UInt8) (path : String) (us : List CodeUnit) :
    (startUnits h (world.writeArtifact a bytes) path us).Alike (behind h.config w)
      (startUnits h w path us) := by
  have hidle : Machine.Alike (behind h.config w)
      (idle (h.appendUnits (CodeUnit.placed path us)) (world.writeArtifact a bytes))
      (idle (h.appendUnits (CodeUnit.placed path us)) w) :=
    ⟨.refl _, .returning .nil, .nil, ⟨a, world, hcreate, rfl⟩, False.elim⟩
  exact hidle.enter ⟨h.units.length, (Nat.zero_add _).symm, (Nat.zero_add _).symm⟩ _ _ _

theorem Machine.carries_startUnits (h : Host) (w : World) (path : String) (us : List CodeUnit) :
    (startUnits h w path us).Carries h.config w :=
  (carries_idle (h.appendUnits (CodeUnit.placed path us)) w).enter _ _ _ _

end

/-- A source that is readable is loaded through its temporary file just as its units are run: when
it cannot be assembled the load fails with the path and the text of the error, and otherwise the
load and the run of the units end together, and come to the same. -/
theorem loadSource_refines_invoke {path source : String} (hcompiler : h.compiler = .onRequest)
    (hread : w.readText path = .ok source) (hcreate : (idle h w).CanCreate) :
    (∀ e, Assembly.assemble source path = .error e →
        (startSource h w path).isDone = true
          ∧ (startSource h w path).loaded? = some (.error (.uncompiled path e.message))
          ∧ (startSource h w path).host = h)
      ∧ ∀ us, Assembly.assemble source path = .ok us → (Bytecode.write? us).isSome = true →
        (∀ k, ((startSource h w path).run k).CanCreate) →
        (∀ k, ¬ ((startSource h w path).run k).ResolvesArtifact) →
        (∀ k, ¬ ((startUnits h w path us).run k).ResolvesArtifact) →
        ∀ n, (((startSource h w path).run n).isDone = true →
            ((startUnits h w path us).run n).isDone = true)
          ∧ (((startUnits h w path us).run n).isDone = true →
            ((startSource h w path).run (n + 1)).LoadsAs h.arena.length
              ((startUnits h w path us).run n)) := by
  obtain ⟨a, world, hc⟩ := hcreate
  constructor
  · intro e herror
    exact startSource_of_error hread hc herror
  intro us hunits hwritten hcan hnot hnot' n
  obtain ⟨bytes, hw⟩ := Option.isSome_iff_exists.1 hwritten
  obtain ⟨l, hkey, hmark, hstart⟩ := startSource_of_ok hcompiler hread hc hunits hw
  have hcarries : (startSource h w path).Carries h.config w :=
    (carries_idle h w).handed (loadSource_handed _ _ path)
  have hcarries' := carries_startUnits h w path us
  have halike := alike_startUnits (h := h) hc bytes path us
  rw [hstart] at hcarries hcan hnot ⊢
  rw [← hmark]
  generalize startUnits h (world.writeArtifact a bytes) path us = x at *
  have hrun : ∀ k, (x.run k).Abreast (behind h.config w) ((startUnits h w path us).run k) :=
    abreast_run rfl id (.alike halike) hcarries hcarries' (fun _ _ _ _ _ => rfl) hcan hnot hnot'
  exact loadsAs_run hrun hcarries hcarries' hkey n

/-! ### A source with a function -/

theorem Machine.not_resolvesArtifact_of_callsBuiltin {m : Machine} (h : m.callsBuiltin = false) :
    ¬ m.ResolvesArtifact := by
  rintro ⟨name, path, ⟨f, dest, b, hcontrol, hcall, -⟩, -⟩
  rw [callsBuiltin, hcontrol] at h
  dsimp only at h
  rw [hcall] at h
  cases h

namespace Callee

def host : Host := { config := { tempDir := some "/" } }

def world : World := { files := .single "callee.nl" (Bytes.ofText calleeSource) }

def units : List CodeUnit := calleeUnits.map fun u => { u with filename := some "/callee.nl" }

def artifact : Artifact := { path := Location.path ["nlreq.1.0"], location := ["nlreq.1.0"] }

def worldWithin : World where
  files := (world.files.insert artifact.location (.file [])).replace artifact.location
    (.file ((Bytecode.write? units).getD []))
  nextArtifact := 1

theorem readText : world.readText "/callee.nl" = .ok calleeSource := by
  have hname : Path.IsName "callee.nl" := by constructor <;> decide
  rw [World.readText_eq_ok_iff]
  exact ⟨_, FileTree.openEntry_single hname _ [], Bytes.toText?_ofText calleeSource⟩

theorem assemble_units : Assembly.assemble calleeSource "/callee.nl" = .ok units := by
  decide

/-- The temporary file is made in the root if there is none of its name. -/
theorem createArtifact_of_vacant {files : FileTree}
    (hvacant : files.entryAt? artifact.location = none) :
    ({ files } : World).createArtifact host.config
      = (.ok artifact, { files := files.insert artifact.location (.file []), nextArtifact := 1 }) := by
  have hpath : World.artifactPath {} host.config 0 = Location.path ["nlreq.1.0"] := by decide
  refine World.createArtifact_inRoot ?_ hpath (by decide) hvacant
  constructor <;> decide

theorem createArtifact : world.createArtifact host.config
    = (.ok artifact, { world with
        files := world.files.insert artifact.location (.file [])
        nextArtifact := 1 }) :=
  createArtifact_of_vacant (by decide)

def HasRoom (m : Machine) : Prop :=
  m.world.artifactPath m.host.config m.world.nextArtifact = Location.path ["nlreq.1.1"]
    ∧ m.world.files.entryAt? ["nlreq.1.1"] = none

instance (m : Machine) : Decidable (HasRoom m) := inferInstanceAs (Decidable (_ ∧ _))

theorem HasRoom.canCreate {m : Machine} (h : HasRoom m) : m.CanCreate := by
  refine ⟨_, _, World.createArtifact_inRoot ?_ h.1 ?_ h.2⟩
  · constructor <;> decide
  · decide

theorem write?_units : Bytecode.write? units = some ((Bytecode.write? units).getD []) := by
  decide

theorem startSource_eq : Machine.startSource host world "/callee.nl"
    = (Machine.startUnits host worldWithin "/callee.nl" units).above
        [.load { arenaMark := 0, artifact := some artifact }] :=
  Machine.startSource_eq_startLoad rfl readText createArtifact assemble_units write?_units

end Callee

open Callee

theorem loadSource_refines_invoke_callee :
    ((startUnits host world "/callee.nl" units).run 6).value? = some (.ok .nil)
      ∧ ((startSource host world "/callee.nl").run 7).LoadsAs 0
        ((startUnits host world "/callee.nl" units).run 6) := by
  have hdone : ((startUnits host world "/callee.nl" units).run 6).isDone = true := by decide +kernel
  have hquiet : ∀ k, ((startSource host world "/callee.nl").run k).callsBuiltin = false := by
    rw [startSource_eq]
    refine run_of_isDone_run (P := fun m => m.callsBuiltin = false) (n := 7) ?_ ?_
    · decide +kernel
    · decide +kernel
  have hquiet' : ∀ k, ((startUnits host world "/callee.nl" units).run k).callsBuiltin = false :=
    run_of_isDone_run (P := fun m => m.callsBuiltin = false) hdone (by decide +kernel)
  have hcreate : ∀ k, ((startSource host world "/callee.nl").run k).CanCreate := by
    rw [startSource_eq]
    refine run_of_isDone_run (P := CanCreate) (n := 7) ?_ ?_
    · decide +kernel
    · have hroom : ∀ k ≤ 7, HasRoom (((startUnits host worldWithin "/callee.nl" units).above
          [.load { arenaMark := 0, artifact := some artifact }]).run k) := by decide +kernel
      exact fun k hk => (hroom k hk).canCreate
  obtain ⟨-, hrefines⟩ := loadSource_refines_invoke (h := host) rfl readText ⟨_, _, createArtifact⟩
  exact ⟨by decide +kernel, (hrefines units assemble_units (by decide +kernel) hcreate
    (fun k => not_resolvesArtifact_of_callsBuiltin (hquiet k))
    (fun k => not_resolvesArtifact_of_callsBuiltin (hquiet' k)) 6).2 hdone⟩

end ModuleHost
