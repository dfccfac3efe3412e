import ModuleHost.Proofs.Machine.Pending
import ModuleHost.Proofs.Session.Dispatches

/-!
# Refused bytecode

Wherever a bytecode file is refused while a request is served, the one who has asked for it learns
why: another version is raised as a script error, any other fault is a failure to load this file.
And nobody is told of a file for which he has not asked (`refusals_surface`).
-/

namespace ModuleHost

open Machine

def Request.HandsOver (host : Host) (world : World) (path : String) : Request → Prop
  | require name => (idle host world).Dispatches .require name path
  | load name => (idle host world).Dispatches .load name path
  | invoke .. => False

/-- Nothing is pending now, and if the next step hands over a file that is refused, the frame that
has asked for the file gets the failure and raises it; the next step brings no such failure without
a cause. -/
structure Machine.Surfaces (m : Machine) : Prop where
  pending : m.host.pending = none
  waiting : ∀ c, .compilation c ∈ m.stack → c.outer.pending = none
  refused : ∀ path e, m.HandsOver path → m.world.Refuses path e →
    ∃ f, m.control = .running f ∧ m.step.control = .failing (.refusal path e)
      ∧ m.step.step.control = .raising
          ((LoadError.refusal path e).toException.leaving (f.location m.host.units))
  caused : m.isDone = false → ∀ err, m.step.control = .failing err → err.FromDecoder →
    m.Causes err

variable {h : Host} (w : World)

theorem Machine.Clear.surfaces {m : Machine} (hm : m.Clear) : m.Surfaces where
  pending := hm.pending
  waiting _ := hm.waiting
  refused _ _ := step_refused hm.pending
  caused hdone := (hm.faithful_step hdone).cause

theorem Request.faithful_start (hpending : h.pending = none) (r : Request) :
    (r.start h w).Faithful fun err => ∃ path, r.HandsOver h w path ∧ w.RefusalOf path err := by
  have hcalled := fun b name => faithful_callBuiltin (m := idle h w) hpending trivial b [.str name]
  cases r with
  | require name =>
    refine (hcalled .require name).mono ?_
    rintro err ⟨_, path, ⟨⟩, hdispatch, herr⟩
    exact ⟨path, hdispatch, herr⟩
  | load name =>
    refine (hcalled .load name).mono ?_
    rintro err ⟨_, path, ⟨⟩, hdispatch, herr⟩
    exact ⟨path, hdispatch, herr⟩
  | invoke unit scope args receiver =>
    exact faithful_enter (m := idle h w) hpending trivial unit scope args receiver

/-- A request for a refused file ends with the failure. -/
theorem Request.start_refused (hpending : h.pending = none) (r : Request) {path : String}
    {e : Bytecode.DecodeError} (hh : r.HandsOver h w path) (hr : w.Refuses path e) :
    (r.start h w).isDone = true ∧ (r.start h w).loaded? = some (.error (.refusal path e)) := by
  have hcall : ∀ b name, (idle h w).Dispatches b name path →
      ((idle h w).callBuiltin b [.str name]).isDone = true
        ∧ ((idle h w).callBuiltin b [.str name]).loaded? = some (.error (.refusal path e)) := by
    intro b name hd
    obtain ⟨m₁, l, hm, hstack, -⟩ := callBuiltin_refused hpending hd hr
    have hempty : m₁.stack = [] := hstack
    rw [hm, failLoad_eq, isDone, hempty]
    exact ⟨rfl, rfl⟩
  cases r with
  | require name => exact hcall .require name hh
  | load name => exact hcall .load name hh
  | invoke unit scope args receiver => exact hh.elim

/-- While a request is served by a host in which no exception is pending, none is pending before any
instruction, in any host, and none is left.  A bytecode file that is refused fails the very load
that has asked for it: another version as a script error with the decoder's message, anything else
as an unreadable file with what the decoder says.  Where code has asked for the file, it is raised
there.  And a load fails in one of these ways only if its own file has been refused, or if an
exception reaches it. -/
theorem refusals_surface (hpending : h.pending = none) (r : Request) :
    (∀ path e, r.HandsOver h w path → w.Refuses path e →
        (r.start h w).isDone = true ∧ (r.start h w).loaded? = some (.error (.refusal path e)))
      ∧ (∀ err, (r.start h w).control = .failing err → err.FromDecoder →
          ∃ path, r.HandsOver h w path ∧ w.RefusalOf path err)
      ∧ ∀ n, ((r.start h w).run n).Surfaces := by
  have hstart := r.faithful_start w hpending
  exact ⟨fun path e hh hr => r.start_refused w hpending hh hr, hstart.cause,
    fun n => (hstart.clear.run n).surfaces⟩

/-! ### A frame that loads a file of another version -/

namespace Outdated

/-- The file is no longer than its version. -/
def contents : List UInt8 := Bytecode.magic ++ [9, 0]

def world : World := { files := .single "v.nlb" contents }

def host : Host where
  units := [{ symbols := ["/v.nlb", "load"], lines := [1, 2]
              instructions := [{ opcode := .loadStr, dest := 1 },
                { opcode := .call, imm := 1, src1 := 1, mode := 1 }] }]

theorem openEntry : world.files.openEntry world.cwd "/v.nlb" = .ok (.file contents) := by
  have hname : Path.IsName "v.nlb" := ⟨by decide, by decide, by decide, by decide, by decide⟩
  exact FileTree.openEntry_single hname contents []

theorem refuses : world.Refuses "/v.nlb" (.unsupportedVersion 9) :=
  ⟨by decide +kernel, _, openEntry, rfl⟩

def caller : Machine := ((Request.invoke 0 .topLevel [] .nil).start host world).run 1

theorem handsOver : caller.HandsOver "/v.nlb" :=
  ⟨_, 0, .load, "/v.nlb", rfl, rfl, World.resolve_of_openEntry (by decide) openEntry _, Or.inl rfl⟩

end Outdated

theorem refusals_surface_outdated :
    Outdated.host.pending = none ∧ Outdated.caller.step.step.control = .raising
      { className := "ScriptError", message := "unsupported bytecode version 9 (expected 1)"
        backtrace := ["-:2:in <main>"] } := by
  have hsurface := (refusals_surface Outdated.world (h := Outdated.host) rfl
    (.invoke 0 .topLevel [] .nil)).2.2 1
  obtain ⟨f, hf, -, hraised⟩ := hsurface.refused _ _ Outdated.handsOver Outdated.refuses
  refine ⟨rfl, hraised.trans ?_⟩
  cases hf
  decide +kernel

end ModuleHost
