import ModuleHost.Proofs.Assembly.Operations
import ModuleHost.Proofs.Machine.Unwinding

/-!
# Where a frame goes

An instruction that is no jump leads to the one behind it, unless the frame ends there or waits for
what it has called; a jump that is taken leads to its target.  `Moves` says so for each instruction,
and `moves_fetch` that nothing else happens.  The frame of an invocation is the first one, on which
everything else waits (`rootFrame?`).
-/

namespace ModuleHost

namespace Machine

/-! ### The first frame -/

/-- The frame that was entered first, if it is the one that runs. -/
def rootFrame? (m : Machine) : Option Frame :=
  match m.stack, m.control with
  | [], .running f => some f
  | _, _ => none

theorem rootFrame?_eq_some_iff {m : Machine} {f : Frame} :
    m.rootFrame? = some f ↔ m.stack = [] ∧ m.control = .running f := by
  obtain ⟨host, world, control, stack⟩ := m
  cases stack <;> cases control <;> simp [rootFrame?]

/-- Nothing waits for the first frame: when it ends, all has ended. -/
theorem isDone_of_not_running {m : Machine} (hstack : m.stack = [])
    (hc : ∀ f, m.control ≠ .running f) : m.isDone = true := by
  obtain ⟨host, world, control, stack⟩ := m
  obtain rfl : stack = [] := hstack
  cases control with
  | running f => exact absurd rfl (hc f)
  | stuck | returning | raising | failing => rfl

theorem loader_of_stack {m : Machine} (hstack : m.stack = []) : m.loader = m.host := by
  rw [loader, hstack]
  rfl

/-- What stands at an index of the table in the beginning stands there all the time. -/
theorem getElem?_units_run {m : Machine} {k : Nat} {u : CodeUnit} (hstack : m.stack = [])
    (hu : m.host.units[k]? = some u) (n : Nat) : (m.run n).loader.units[k]? = some u := by
  have ho : Outermost m.stack := by
    rw [hstack]
    trivial
  have hgrown := (growsTo_run (secludedIn_of_outermost m.host ho) n).units
  rw [loader_of_stack hstack] at hgrown
  exact CodeUnit.getElem?_of_isPrefix hgrown hu

/-! ### Instructions -/

inductive Moves (m : Machine) (f : Frame) (i : Instruction) : Machine → Prop
  | next {host : Host} {f' : Frame} (hop : i.opcode ≠ .halt) (hunit : f'.unit = f.unit)
      (hposition : f'.position = f.position + 1) :
      Moves m f i { m with host, control := .running f' }
  | jumps (hop : i.opcode.jumps = true) (htarget : 0 ≤ i.imm.toInt) :
      Moves m f i (m.continueWith (f.jumpTo i.imm.toInt.toNat))
  | calls {z : Machine} {dest : UInt8} (hop : i.opcode = .call) :
      Moves m f i (z.above (.call f dest :: m.stack))
  | returns (value : Value) (hop : i.opcode = .ret) : Moves m f i (m.returnFrom value)
  | halts (hop : i.opcode = .halt) :
      Moves m f i ({ m with host := { m.host with halted := true } }.returnFrom .nil)
  | raises (e : Exception) : Moves m f i (m.raiseIn f e)
  | stuck : Moves m f i { m with control := .stuck }

def Moving (m : Machine) (f : Frame) (i : Instruction) (m? : Option Machine) : Prop :=
  ∀ m' ∈ m?, Moves m f i m'

variable {m : Machine} {f : Frame} {u : CodeUnit} {i : Instruction}

theorem moves_callByName (hop : i.opcode = .call) (name : String) (args : List Value) :
    Moves m f i (m.callByName f i.dest name args) := by
  unfold callByName
  split
  · rw [push_eq_above, enter_above]
    exact .calls hop
  · split
    · rw [push_eq_above, callBuiltin_above]
      exact .calls hop
    · exact .raises _

theorem moving_execute? (m : Machine) (f : Frame) (u : CodeUnit) (i : Instruction) :
    Moving m f i (m.execute? f u i) := by
  have hparts : Parts (fun m' _ => Moves m f i m') m m f f u u i := {
    goesOn := fun _ _ hop => .next hop rfl rfl
    jumps := fun hop htarget => .jumps hop htarget
    binds := fun hop _ _ => .next (by rw [hop]; decide) rfl rfl
    calls := fun hop _ _ => moves_callByName hop _ _
    raises := fun _ => .raises _
    returns := fun value hop => .returns value hop
    halts := fun hop => .halts hop }
  exact hparts.forall_mem

theorem moves_fetch (hi : m.host.instruction? f = some i) : Moves m f i (m.fetch f) := by
  obtain ⟨u, hu, hi⟩ := Host.instruction?_eq_some_iff.1 hi
  unfold fetch
  rw [hu]
  dsimp only
  rw [hi]
  dsimp only
  cases hm : m.execute? f u i with
  | none => exact .stuck
  | some m' => exact moving_execute? m f u i m' hm

end Machine

end ModuleHost
