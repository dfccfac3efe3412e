import ModuleHost.Proofs.Machine.Soundness

/-!
# Assembled code is safe

A host whose units come from the assembler, in complete groups, and whose functions have been bound
by definitions in these units runs any of them without a misstep, whatever arguments it hands over
and however calls and loads of further sources nest (`invoke_safe`).
-/

namespace ModuleHost

/-- Every function has been bound by a definition in one of the units. -/
def Host.FunctionsDefined (h : Host) : Prop :=
  ∀ name unit, h.functions.get? name = some unit →
    ∃ (k : Nat) (u : CodeUnit), h.units[k]? = some u ∧ ∃ i ∈ u.instructions, i.opcode = .define
      ∧ u.symbol? i.imm = some name
      ∧ ∃ offset, u.children[i.mode.toNat]? = some offset ∧ unit = k + offset.toNat

theorem Host.sound_of_groups {h : Host} {groups : List (List CodeUnit)}
    (hunits : h.units = groups.flatten) (hgroups : ∀ g ∈ groups, AssembledGroup g)
    (hfunctions : h.FunctionsDefined) : h.Sound := by
  have hsound : SoundTable h.units := hunits ▸ soundTable_flatten hgroups
  refine ⟨hsound, fun name unit hget => ?_⟩
  obtain ⟨k, u, hu, i, -, -, -, offset, hoffset, rfl⟩ := hfunctions name unit hget
  exact ((hsound k u hu).2 offset (List.mem_of_getElem? hoffset)).2

/-- No instruction that any frame executes lacks its unit, its symbol, its arithmetic operation, its
window of arguments, its child or its target. -/
theorem invoke_safe {h : Host} {groups : List (List CodeUnit)} (hunits : h.units = groups.flatten)
    (hgroups : ∀ g ∈ groups, AssembledGroup g) (hfunctions : h.FunctionsDefined) (w : World)
    {unit : Nat} (hunit : unit < h.units.length) (scope : Scope) (args : List Value)
    (receiver : Value)
    (hsources : ∀ k, (((Machine.idle h w).enter unit scope args receiver).run k).LoadsSources)
    (n : Nat) (f : Frame)
    (hf : (((Machine.idle h w).enter unit scope args receiver).run n).control = .running f)
    (message : String) :
    ¬ (((Machine.idle h w).enter unit scope args receiver).run n).Misstep f message := by
  have hhost : (Machine.idle h w).host.Sound := Host.sound_of_groups hunits hgroups hfunctions
  have hstart : ((Machine.idle h w).enter unit scope args receiver).Sound :=
    Machine.sound_enter hhost trivial hunit scope args receiver
  exact (hstart.run hsources n).not_misstep hf message

def Machine.callsBuiltin (m : Machine) : Bool :=
  match m.control with
  | .running f => (m.builtinCall? f).isSome
  | _ => false

theorem Machine.loadsSources_of_callsBuiltin {m : Machine} (h : m.callsBuiltin = false) :
    m.LoadsSources := by
  intro f dest b name path hf hb
  rw [callsBuiltin, hf] at h
  dsimp only at h
  rw [hb] at h
  cases h

def calleeSource : String := ".def f\nret r1\n.end\ncall r0, f, r1, 1\nhalt\n"

def calleeUnits : List CodeUnit := [
  { filename := some "callee.nl", lines := [1, 4, 5], symbols := ["f"], children := [1]
    instructions := [{ opcode := .define }, { opcode := .call, src1 := 1, mode := 1 },
      { opcode := .halt }] },
  { filename := some "callee.nl", lines := [2], instructions := [{ opcode := .ret, src1 := 1 }] }]

theorem assemble_callee : Assembly.assemble calleeSource "callee.nl" = .ok calleeUnits := by
  decide +kernel

def calleeStart : Machine :=
  (Machine.idle { units := calleeUnits } {}).enter 0 .topLevel [] .main

theorem calleeStart_loadsSources (k : Nat) : (calleeStart.run k).LoadsSources := by
  apply Machine.loadsSources_of_callsBuiltin
  have hfirst : ∀ k ≤ 5, (calleeStart.run k).callsBuiltin = false := by decide +kernel
  have hdone : (calleeStart.run 5).isDone = true := by decide +kernel
  exact Machine.run_of_isDone_run (P := fun m => m.callsBuiltin = false) hdone hfirst k

/-- The function that has been called runs its only instruction. -/
theorem invoke_safe_callee :
    (calleeStart.run 2).control = .running (Frame.start 1 (.function "f") [.nil] .main)
      ∧ ∀ message, ¬ (calleeStart.run 2).Misstep (Frame.start 1 (.function "f") [.nil] .main)
        message := by
  have hgroups : ∀ g ∈ [calleeUnits], AssembledGroup g := by
    intro g hg
    rw [List.mem_singleton.1 hg]
    exact .assembled (by decide +kernel) assemble_callee
  have hcontrol : (calleeStart.run 2).control
      = .running (Frame.start 1 (.function "f") [.nil] .main) := by decide +kernel
  have hunits : ({ units := calleeUnits } : Host).units = [calleeUnits].flatten :=
    (List.append_nil calleeUnits).symm
  exact ⟨hcontrol, invoke_safe hunits hgroups (fun _ _ hget => by cases hget) {} (by decide)
    .topLevel [] .main calleeStart_loadsSources 2 _ hcontrol⟩

end ModuleHost
