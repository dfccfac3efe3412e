import ModuleHost.Proofs.Assembly.Targets
import ModuleHost.Proofs.Machine.Moves
import ModuleHost.Proofs.Machine.Origins

/-!
# How the top level ends

The top level of a source ends in a halt, so its frame returns only by a `ret` of its own or when
the host has halted: at every moment it either executes one of its instructions or waits behind a
call that is not the last of them (`Within`).  One way leads out.  Where the source itself ends in a
halt and a label stands behind it, a jump to this label leaves the instructions behind, and the
frame returns nil although nothing has halted (`topLevel_ends`).
-/

namespace ModuleHost

open Machine

namespace Machine

/-- The operation that the first frame is about to execute. -/
def rootOperation? (m : Machine) : Option Opcode :=
  m.rootFrame?.bind fun f => (m.host.instruction? f).map (·.opcode)

/-- The first frame, of the unit `k`, takes a jump that leads to no instruction of `u`. -/
structure JumpsOut (u : CodeUnit) (k : Nat) (m : Machine) (f : Frame) (i : Instruction) : Prop where
  frame : m.rootFrame? = some f
  unit : f.unit = k
  instruction : u.instructions[f.position]? = some i
  jumps : i.opcode.jumps = true
  target : u.instructions.length ≤ i.imm.toInt.toNat
  step : m.step = m.continueWith (f.jumpTo i.imm.toInt.toNat)

/-- The frame that was entered first, of the unit `k`, executes one of the instructions of `u` or
waits behind one that is not the last; or it has ended, and then the host has halted or `returned`
holds. -/
inductive Within (u : CodeUnit) (k : Nat) (returned : Prop) : Machine → Prop
  | runs {m : Machine} {f : Frame} (hframe : m.rootFrame? = some f) (hunit : f.unit = k)
      (hposition : f.position < u.instructions.length) : Within u k returned m
  | waits {z : Machine} {f : Frame} {dest : UInt8} (hunit : f.unit = k)
      (hposition : f.position + 1 < u.instructions.length) :
      Within u k returned (z.above [.call f dest])
  | ended {m : Machine} (hdone : m.isDone = true)
      (hvalue : ∀ value, m.control = .returning value → m.host.halted = true ∨ returned) :
      Within u k returned m

variable {m : Machine} {u : CodeUnit} {k : Nat} {returned returned' : Prop}

theorem Within.mono (h : Within u k returned m) (hr : returned → returned') :
    Within u k returned' m := by
  cases h with
  | runs hframe hunit hposition => exact .runs hframe hunit hposition
  | waits hunit hposition => exact .waits hunit hposition
  | ended hdone hvalue => exact .ended hdone fun value hc => (hvalue value hc).imp id hr

/-- A unit that ends in a halt has an instruction behind every other one. -/
theorem lt_of_endsInHalt (hu : u.EndsInHalt) {position : Nat} {i : Instruction}
    (hi : u.instructions[position]? = some i) (hop : i.opcode ≠ .halt) :
    position + 1 < u.instructions.length := by
  have hlt := (List.getElem?_eq_some_iff.1 hi).1
  refine Nat.lt_of_le_of_ne hlt fun hlast => hop ?_
  have hget : u.instructions.getLast? = some i := by
    rw [List.getLast?_eq_getElem?, ← hlast, Nat.add_sub_cancel, hi]
  rw [CodeUnit.EndsInHalt, hget] at hu
  exact Option.some.inj hu

/-- One instruction of the first frame. -/
theorem Within.fetch {f : Frame} (hframe : m.rootFrame? = some f) (hunit : f.unit = k)
    (hposition : f.position < u.instructions.length) (hu : m.host.units[k]? = some u)
    (hlast : u.EndsInHalt) :
    Within u k (returned ∨ m.rootOperation? = some .ret) m.step ∨ ∃ f i, m.JumpsOut u k f i := by
  obtain ⟨hstack, hc⟩ := rootFrame?_eq_some_iff.1 hframe
  obtain ⟨i, hi⟩ : ∃ i, u.instructions[f.position]? = some i :=
    ⟨_, List.getElem?_eq_getElem hposition⟩
  have hinstruction : m.host.instruction? f = some i :=
    Host.instruction?_eq_some_iff.2 ⟨u, hunit ▸ hu, hi⟩
  have hstep : m.step = m.fetch f := step_of_running hc
  rw [hstep]
  generalize hm' : m.fetch f = m', moves_fetch hinstruction = hmoves
  rw [hm'] at hstep
  cases hmoves with
  | next hop hunit' hposition' =>
    refine Or.inl (.runs (rootFrame?_eq_some_iff.2 ⟨hstack, rfl⟩) (hunit'.trans hunit) ?_)
    rw [hposition']
    exact lt_of_endsInHalt hlast hi hop
  | jumps hop htarget =>
    by_cases hlt : i.imm.toInt.toNat < u.instructions.length
    · exact Or.inl (.runs (rootFrame?_eq_some_iff.2 ⟨hstack, rfl⟩) hunit hlt)
    · exact Or.inr ⟨f, i, hframe, hunit, hi, hop, Nat.le_of_not_lt hlt, hstep⟩
  | calls hop =>
    rw [hstack]
    refine Or.inl (.waits hunit (lt_of_endsInHalt hlast hi ?_))
    rw [hop]
    decide
  | returns value hop =>
    refine Or.inl (.ended (isDone_of_not_running hstack nofun) fun _ _ => Or.inr (Or.inr ?_))
    rw [rootOperation?, hframe, Option.bind_some, hinstruction, Option.map_some, hop]
  | halts hop => exact Or.inl (.ended (isDone_of_not_running hstack nofun) fun _ _ => Or.inl rfl)
  | raises e | stuck => exact Or.inl (.ended (isDone_of_not_running hstack nofun) nofun)

/-- One step while the first frame waits. -/
theorem Within.wait {z : Machine} {f : Frame} {dest : UInt8} (hunit : f.unit = k)
    (hposition : f.position + 1 < u.instructions.length) :
    Within u k returned (z.above [.call f dest]).step := by
  cases hdone : z.isDone with
  | false =>
    rw [step_above z _ hdone]
    exact .waits hunit hposition
  | true =>
    obtain ⟨host, world, control, stack⟩ := z
    cases control with
    | running f => cases hdone
    | stuck => exact .waits (z := ⟨host, world, .stuck, stack⟩) hunit hposition
    | raising e | failing e =>
      obtain rfl : stack = [] := List.isEmpty_iff.1 hdone
      exact .ended rfl nofun
    | returning value =>
      obtain rfl : stack = [] := List.isEmpty_iff.1 hdone
      show Within u k returned
        (resume { host, world, control := .returning value, stack := [] } f dest value)
      unfold resume assign? Frame.write?
      split
      · next hhalted => exact .ended rfl fun _ _ => Or.inl hhalted
      · split
        · exact .runs rfl hunit hposition
        · exact .ended rfl nofun

/-- What one step does to the first frame. -/
theorem Within.step (h : Within u k returned m) (hu : m.loader.units[k]? = some u)
    (hlast : u.EndsInHalt) :
    Within u k (returned ∨ m.rootOperation? = some .ret) m.step ∨ ∃ f i, m.JumpsOut u k f i := by
  cases h with
  | runs hframe hunit hposition =>
    rw [loader_of_stack (rootFrame?_eq_some_iff.1 hframe).1] at hu
    exact Within.fetch hframe hunit hposition hu hlast
  | waits hunit hposition => exact Or.inl ((Within.wait hunit hposition).mono Or.inl)
  | ended hdone hvalue =>
    rw [step_of_isDone hdone]
    exact Or.inl (Within.mono (.ended hdone hvalue) Or.inl)

/-- What any number of steps do, as long as no jump leads out. -/
theorem Within.run (h : Within u k False m)
    (hu : ∀ n, (m.run n).loader.units[k]? = some u) (hlast : u.EndsInHalt)
    (n : Nat) :
    Within u k (∃ j < n, (m.run j).rootOperation? = some .ret) (m.run n)
      ∨ ∃ j < n, ∃ f i, (m.run j).JumpsOut u k f i := by
  induction n with
  | zero => exact Or.inl (h.mono False.elim)
  | succ n ih =>
    rcases ih with hwithin | ⟨j, hj, hout⟩
    · rw [run_succ']
      rcases hwithin.step (hu n) hlast with hstep | hout
      · refine Or.inl (hstep.mono ?_)
        rintro (⟨j, hj, hret⟩ | hret)
        · exact ⟨j, Nat.lt_succ_of_lt hj, hret⟩
        · exact ⟨n, Nat.lt_succ_self n, hret⟩
      · exact Or.inr ⟨n, Nat.lt_succ_self n, hout⟩
    · exact Or.inr ⟨j, Nat.lt_succ_of_lt hj, hout⟩

theorem Within.of_enter (hstack : m.stack = []) (hu : u.EndsInHalt) (scope : Scope)
    (args : List Value) (receiver : Value) :
    Within u k returned (m.enter k scope args receiver) := by
  unfold enter
  split
  · exact .ended (isDone_of_not_running hstack nofun) nofun
  · exact .runs (rootFrame?_eq_some_iff.2 ⟨hstack, rfl⟩) rfl hu.length_pos

/-- While the first frame is the one that runs it has an instruction to execute. -/
theorem Within.instruction (h : Within u k returned m) (hu : m.loader.units[k]? = some u)
    {f : Frame} (hf : m.rootFrame? = some f) : (m.host.instruction? f).isSome = true := by
  obtain ⟨hstack, hc⟩ := rootFrame?_eq_some_iff.1 hf
  cases h with
  | runs hframe hunit hposition =>
    cases hframe.symm.trans hf
    rw [loader_of_stack hstack] at hu
    rw [Host.instruction?, hunit, hu]
    exact Option.isSome_iff_exists.2 ⟨_, List.getElem?_eq_getElem hposition⟩
  | waits hunit hposition => exact absurd hstack (stack_above_ne_nil _ _ _)
  | ended hdone hvalue =>
    rw [isDone, hc] at hdone
    cases hdone

/-- When it has returned, the host has halted or the frame has executed a `ret`. -/
theorem Within.ret (h : Within u k returned m) (hstack : m.stack = []) {value : Value}
    (hc : m.control = .returning value) : m.host.halted = true ∨ returned := by
  cases h with
  | runs hframe hunit hposition =>
    cases (rootFrame?_eq_some_iff.1 hframe).2.symm.trans hc
  | waits hunit hposition => exact absurd hstack (stack_above_ne_nil _ _ _)
  | ended hdone hvalue => exact hvalue value hc

/-- Where the unit is over, the frame returns nil. -/
theorem JumpsOut.returns {f : Frame} {i : Instruction} (h : m.JumpsOut u k f i)
    (hu : m.step.host.units[k]? = some u) : m.step.step = m.step.returnFrom .nil := by
  have hunit := h.unit
  have hnone : u.instructions[i.imm.toInt.toNat]? = none := List.getElem?_eq_none h.target
  rw [h.step] at hu ⊢
  simp only [Machine.step, continueWith, fetch, Frame.jumpTo, hunit] at hu ⊢
  rw [hu]
  dsimp only
  rw [hnone]

/-- The first frame takes a jump of the top level of the source to a label behind its final halt,
and so comes to where the unit is over. -/
def JumpsBehind (m : Machine) (source : String) (root : CodeUnit) : Prop :=
  ∃ f, m.rootFrame? = some f ∧ Assembly.JumpsBehindHalt source f.position
    ∧ m.step = m.continueWith (f.jumpTo root.instructions.length)

end Machine

/-- At every moment of the invocation of a source as it was assembled: its frame has an instruction
to execute whenever it is the one that runs, and if it has returned, the host has halted or the
frame has executed a `ret`.  Otherwise it has taken a jump to a label that stands behind a halt at
the very end of the source, and then it has returned nil at once. -/
theorem topLevel_ends {source filename : String} {root : CodeUnit} {functions : List CodeUnit}
    (ha : Assembly.assemble source filename = .ok (root :: functions)) (h : Host) (w : World)
    {k : Nat} (hk : h.units[k]? = some root) (scope : Scope) (args : List Value) (receiver : Value)
    (n : Nat) :
    let m := fun n => ((idle h w).enter k scope args receiver).run n
    ((∀ f, (m n).rootFrame? = some f → ((m n).host.instruction? f).isSome = true)
      ∧ ((m n).stack = [] → ∀ value, (m n).control = .returning value →
        (m n).host.halted = true ∨ ∃ j < n, (m j).rootOperation? = some .ret))
    ∨ ∃ j < n, (m j).JumpsBehind source root ∧ m (j + 2) = (m (j + 1)).returnFrom .nil := by
  intro m
  obtain ⟨hlast, htargets⟩ := topLevel_of_assemble ha
  have hstack : ((idle h w).enter k scope args receiver).stack = [] := stack_enter ..
  have hunits : ((idle h w).enter k scope args receiver).host.units[k]? = some root := by
    rw [units_enter]
    exact hk
  have hu : ∀ n, (m n).loader.units[k]? = some root := getElem?_units_run hstack hunits
  have hwithin : Within root k False ((idle h w).enter k scope args receiver) :=
    .of_enter rfl hlast scope args receiver
  rcases hwithin.run hu hlast n with hn | ⟨j, hj, f, i, hout⟩
  · exact Or.inl ⟨fun f hf => hn.instruction (hu n) hf, fun hend value hc => hn.ret hend hc⟩
  · have hnext : m (j + 1) = (m j).step := run_succ' _ j
    have hend : (m (j + 1)).stack = [] := by
      rw [hnext, hout.step]
      exact (rootFrame?_eq_some_iff.1 hout.frame).1
    have hreturn : m (j + 2) = (m (j + 1)).returnFrom .nil := by
      rw [show m (j + 2) = (m (j + 1)).step from run_succ' _ (j + 1)]
      have hat := hu (j + 1)
      rw [loader_of_stack hend, hnext] at hat
      rw [hnext]
      exact hout.returns hat
    refine Or.inr ⟨j, hj, ⟨f, hout.frame, ?_⟩, hreturn⟩
    rcases htargets f.position i hout.instruction hout.jumps with hlt | ⟨heq, hbehind⟩
    · exact absurd hout.target (Nat.not_le_of_lt hlt)
    · rw [← heq]
      exact ⟨hbehind, hout.step⟩

/-- The unit of a source that jumps over a halt to a label at the very end. -/
def overshooting : CodeUnit where
  filename := some "a.nl"
  instructions := [{ opcode := .jump, imm := 2 }, { opcode := .halt }]
  lines := [1, 2]

/-- Invoked as it was assembled, it returns nil in two steps: nothing has halted, and no `ret` was
executed. -/
theorem topLevel_overshoots :
    Assembly.assemble "jmp end\nhalt\nend:\n" "a.nl" = .ok [overshooting]
      ∧ let m := fun n =>
          ((idle { units := [overshooting] } {}).enter 0 .topLevel [] .main).run n
        (m 2).stack = [] ∧ (m 2).control = .returning .nil ∧ (m 2).host.halted = false
          ∧ ∀ j < 2, (m j).rootOperation? ≠ some .ret := by
  decide +kernel

/-- The same without the halt: one is added, and the label stands before it. -/
theorem topLevel_ends_jump :
    let u : CodeUnit := { overshooting with
      instructions := [{ opcode := .jump, imm := 1 }, { opcode := .halt }] }
    let m := fun n => ((idle { units := [u] } {}).enter 0 .topLevel [] .main).run n
    Assembly.assemble "jmp end\nend:\n" "a.nl" = .ok [u]
      ∧ ((∀ f, (m 2).rootFrame? = some f → ((m 2).host.instruction? f).isSome = true)
          ∧ ((m 2).stack = [] → ∀ value, (m 2).control = .returning value →
            (m 2).host.halted = true ∨ ∃ j < 2, (m j).rootOperation? = some .ret)
        ∨ ∃ j < 2, (m j).JumpsBehind "jmp end\nend:\n" u
          ∧ m (j + 2) = (m (j + 1)).returnFrom .nil) := by
  intro u m
  have ha : Assembly.assemble "jmp end\nend:\n" "a.nl" = .ok [u] := by decide +kernel
  exact ⟨ha, topLevel_ends ha { units := [u] } {} rfl .topLevel [] .main 2⟩

end ModuleHost
