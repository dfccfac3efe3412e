import ModuleHost.Proofs.Assembly.Operations
import ModuleHost.Proofs.Machine.Calls

/-!
# Arguments of a call

A call of a function hands a window of the caller's registers to a new frame, where the arguments
stand from register 1 on.  The window may hold all 32 registers, and the new frame has room for 31
arguments behind register 0: of 32 arguments the last one is lost (`last_argument_lost`), and it is
the only one that ever is.  While the function runs, the caller waits as it was; then its registers
are those that it had, but for the one that takes the result (`call_passes_arguments`).
-/

namespace ModuleHost

open Assembly

def Assembly.ReadsCall (line : List Char) (i : Instruction) : Prop :=
  ∃ op, Statement.ofLine line = .ok (.operation op) ∧ op.instruction.opcode = .call
    ∧ i = { op.instruction with imm := i.imm }

/-- The new frame has the arguments of the call `i` of `caller`, as many as it has registers for
behind register 0, and nothing else. -/
structure Frame.Receives (callee caller : Frame) (i : Instruction) : Prop where
  position : callee.position = 0
  receiver : callee.receiver = caller.receiver
  arguments : ∀ k < i.mode.toNat, 1 + k < registerCount →
    callee.registers[1 + k]? = caller.registers[i.src1.toNat + k]?
  others : ∀ r < registerCount, (∀ k < i.mode.toNat, r ≠ 1 + k) →
    callee.registers[r]? = some .nil

/-- The frame goes on behind the instruction that it was executing, with `value` in the register
`dest`. -/
structure Frame.GoesOnWith (f' f : Frame) (dest : UInt8) (value : Value) : Prop where
  unit : f'.unit = f.unit
  scope : f'.scope = f.scope
  receiver : f'.receiver = f.receiver
  position : f'.position = f.position + 1
  result : f'.registers[dest.toNat]? = some value
  others : ∀ r, r ≠ dest.toNat → f'.registers[r]? = f.registers[r]?

variable {f : Frame} {i : Instruction} {args : List Value} {line : List Char}

/-! ### Windows of registers -/

theorem Assembly.ReadsCall.bounds (h : ReadsCall line i) :
    i.opcode = .call ∧ i.dest.toNat < registerCount
      ∧ i.src1.toNat + i.mode.toNat ≤ registerCount := by
  obtain ⟨op, hline, hop, heq⟩ := h
  have hvalid : op.Valid := valid_of_ofLine hline
  rw [heq]
  exact ⟨hop, UInt8.lt_iff_toNat_lt.1 hvalid.registers.1, hvalid.window hop⟩

/-- The values of a window are those of its registers. -/
theorem Frame.getElem?_window {first count k : Nat} (h : f.window? first count = some args)
    (hk : k < count) : args[k]? = f.registers[first + k]? := by
  unfold window? at h
  split at h
  · cases h
    rw [List.getElem?_take_of_lt hk, List.getElem?_drop, Vector.getElem?_toList]
  · cases h

theorem Frame.length_window {first count : Nat} (h : f.window? first count = some args) :
    args.length = count := by
  unfold window? at h
  split at h
  · next hle =>
    cases h
    rw [List.length_take, List.length_drop, Vector.length_toList]
    omega
  · cases h

theorem Frame.getElem?_initialRegisters {r : Nat} (hr : r < registerCount) :
    (initialRegisters args)[r]?
      = some (if r = 0 then .nil else (args[r - 1]?).getD .nil) := by
  rw [Vector.getElem?_eq_getElem hr, initialRegisters, Vector.getElem_ofFn]

/-- A frame that is started with the values of a window receives them. -/
theorem Frame.receives_start (h : f.window? i.src1.toNat i.mode.toNat = some args) (unit : Nat)
    (scope : Scope) : (start unit scope args f.receiver).Receives f i where
  position := rfl
  receiver := rfl
  arguments k hk hroom := by
    have hlt : k < args.length := Nat.lt_of_lt_of_eq hk (length_window h).symm
    show (initialRegisters args)[1 + k]? = _
    rw [getElem?_initialRegisters hroom, if_neg (Nat.ne_of_gt (Nat.add_pos_left Nat.one_pos k)),
      Nat.add_sub_cancel_left, ← getElem?_window h hk, List.getElem?_eq_getElem hlt]
    rfl
  others r hr hnone := by
    show (initialRegisters args)[r]? = _
    rw [getElem?_initialRegisters hr]
    split
    · rfl
    · next hzero =>
      have hout : args.length ≤ r - 1 := by
        rw [length_window h]
        by_contra hlt
        exact hnone (r - 1) (Nat.lt_of_not_le hlt) (by omega)
      rw [List.getElem?_eq_none hout]
      rfl

namespace Machine

variable {m : Machine} {u : CodeUnit} {name : String} {unit : Nat} {s : List Activation}
  {dest : UInt8}

/-! ### Calling and returning -/

/-- A call of a function enters a frame, above which the caller waits. -/
theorem step_callFunction (hc : m.control = .running f) (hu : m.host.units[f.unit]? = some u)
    (hi : u.instructions[f.position]? = some i) (hop : i.opcode = .call)
    (hname : u.symbol? i.imm = some name) (hfunction : m.host.functions.get? name = some unit)
    (hargs : f.window? i.src1.toNat i.mode.toNat = some args)
    (hdepth : m.host.depth < Host.maxDepth) :
    m.step = { m with
      host := m.host.enterFrame
      control := .running (Frame.start unit (.function name) args f.receiver)
      stack := .call f i.dest :: m.stack } := by
  have hroom : ¬ m.host.depth ≥ Host.maxDepth := Nat.not_le_of_lt hdepth
  simp only [step, hc, fetch, hu, hi, execute?, hop, withSymbol, hname, hargs, callByName,
    hfunction, Option.getD_some, enter, push, if_neg hroom]

/-- What reaches a caller takes it off the stack. -/
theorem stack_step_of_call (hstack : m.stack = .call f dest :: s)
    (hrunning : ∀ f', m.control ≠ .running f') (hstuck : m.control ≠ .stuck) :
    m.step.stack = s := by
  obtain ⟨host, world, control, stack⟩ := m
  obtain rfl : stack = .call f dest :: s := hstack
  cases control with
  | running f' => exact absurd rfl (hrunning f')
  | stuck => exact absurd rfl hstuck
  | raising e | failing e => rfl
  | returning value =>
    show (resume _ f dest value).stack = s
    unfold resume assign?
    split
    · rfl
    · cases f.write? dest value <;> rfl

/-- A value that reaches a caller is put into its register. -/
theorem step_returning_goesOn {value : Value} (hc : m.control = .returning value)
    (hstack : m.stack = .call f dest :: s) (hhalted : m.host.halted = false)
    (hdest : dest.toNat < registerCount) :
    ∃ f', m.step = { m with control := .running f', stack := s }
      ∧ f'.GoesOnWith f dest value := by
  obtain ⟨host, world, control, stack⟩ := m
  obtain rfl : control = .returning value := hc
  obtain rfl : stack = .call f dest :: s := hstack
  refine ⟨_, step_returning hhalted hdest, rfl, rfl, rfl, rfl, ?_, fun r hr => ?_⟩
  · exact (Vector.getElem?_eq_getElem hdest).trans (congrArg some (Vector.getElem_set_self hdest))
  · exact Vector.getElem?_set_ne hdest hr.symm

/-- The machine, which executes a call, sees `value` returned to it after `n` steps; until then the
caller has waited. -/
structure SeesReturned (m : Machine) (n : Nat) (value : Value) : Prop where
  waits : ∀ k, 0 < k → k ≤ n → m.stack.length < (m.run k).stack.length
  onTop : (m.run n).stack.length = m.stack.length + 1
  control : (m.run n).control = .returning value

/-- A machine that has come to its end is stuck, or nothing runs or waits in it any more. -/
theorem isDone_cases (hdone : m.isDone = true) :
    m.control = .stuck ∨ m.stack = [] ∧ (∀ f', m.control ≠ .running f') ∧ m.control ≠ .stuck := by
  obtain ⟨host, world, control, stack⟩ := m
  cases control with
  | running f' => cases hdone
  | stuck => exact Or.inl rfl
  | returning value | raising e | failing e =>
    exact Or.inr ⟨List.isEmpty_iff.1 hdone, nofun, nofun⟩

/-- When a function has returned, its caller is on top of the stack as it was when it made the
call. -/
theorem SeesReturned.stack_eq {n : Nat} {value : Value} (h : m.SeesReturned n value)
    {c : Machine} (hstep : m.step = c.above (.call f dest :: m.stack)) :
    (m.run n).stack = .call f dest :: m.stack := by
  obtain ⟨hwaits, htop, hcontrol⟩ := h
  cases n with
  | zero => exact absurd htop (Nat.ne_of_lt (Nat.lt_succ_self _))
  | succ n =>
    have hrun : ∀ k, m.run (k + 1) = (c.above (.call f dest :: m.stack)).run k := fun k => by
      rw [run_succ, hstep]
    -- as high as it was when the function was entered, the stack is the one of that moment
    have hlevel : ∀ k, m.run (k + 1) = (c.run k).above (.call f dest :: m.stack) →
        (m.run (k + 1)).stack.length = m.stack.length + 1 →
        (m.run (k + 1)).stack = .call f dest :: m.stack := by
      intro k habove hlength
      rw [habove, above_stack, List.length_append] at hlength
      rw [habove, above_stack, List.length_eq_zero_iff.1 (Nat.add_eq_right.1 hlength),
        List.nil_append]
    cases hdone : (c.run n).isDone with
    | false => exact hlevel n ((hrun n).trans (run_above_of_not_isDone hdone _)) htop
    | true =>
      obtain ⟨k, hk, hend, habove⟩ := exists_run_above_of_isDone hdone (.call f dest :: m.stack)
      rw [← hrun] at habove
      rcases Nat.lt_or_eq_of_le hk with hlt | rfl
      · -- the frame of the function has ended before: its end has reached the caller, or is stuck
        exfalso
        rcases isDone_cases hend with hstuck | ⟨hempty, hrunning, hstuck⟩
        · have hforever : (m.run (k + 1)).isDone = true := by
            rw [isDone, habove, above_control, hstuck]
          have hlater : n + 1 = (k + 1) + (n - k) := by omega
          rw [hlater, run_add, run_of_isDone hforever, habove, above_control, hstuck] at hcontrol
          cases hcontrol
        · have hgone : (m.run (k + 1)).step.stack = m.stack := by
            have hwaiting : ((c.run k).above (.call f dest :: m.stack)).stack
                = .call f dest :: m.stack := by
              rw [above_stack, hempty, List.nil_append]
            rw [habove, stack_step_of_call hwaiting hrunning hstuck]
          have hwaiting := hwaits (k + 2) (Nat.succ_pos _) (Nat.succ_le_succ hlt)
          rw [run_succ', hgone] at hwaiting
          exact absurd hwaiting (Nat.lt_irrefl _)
      · exact hlevel k habove htop

end Machine

open Machine

/-- A call that a line is read as, where it reaches a function: a new frame of the function has the
arguments of the call, all but the 32nd one, for which it has no register.  When the function has
returned to a host that has not halted, the caller has the value in the register of the call and
everything else as it was. -/
theorem call_passes_arguments {m : Machine} {f : Frame} {u : CodeUnit} {i : Instruction}
    {name : String} {unit : Nat} (hc : m.control = .running f)
    (hu : m.host.units[f.unit]? = some u) (hi : u.instructions[f.position]? = some i)
    (hread : ∃ line, ReadsCall line i) (hname : u.symbol? i.imm = some name)
    (hfunction : m.host.functions.get? name = some unit) (hdepth : m.host.depth < Host.maxDepth) :
    (∃ callee : Frame, m.step = { m with
          host := m.host.enterFrame
          control := .running callee
          stack := .call f i.dest :: m.stack }
        ∧ callee.unit = unit ∧ callee.scope = .function name ∧ callee.Receives f i)
      ∧ ∀ n value, m.SeesReturned n value → (m.run n).host.halted = false →
        ∃ f' : Frame, m.run (n + 1) = { m.run n with control := .running f', stack := m.stack }
          ∧ f'.GoesOnWith f i.dest value := by
  obtain ⟨line, hline⟩ := hread
  obtain ⟨hop, hdest, hfits⟩ := hline.bounds
  have hargs : f.window? i.src1.toNat i.mode.toNat
      = some ((f.registers.toList.drop i.src1.toNat).take i.mode.toNat) := if_pos hfits
  have hstep := step_callFunction hc hu hi hop hname hfunction hargs hdepth
  refine ⟨⟨_, hstep, rfl, rfl, Frame.receives_start hargs unit (.function name)⟩, ?_⟩
  intro n value hreturned hhalted
  obtain ⟨f', hf', hgoesOn⟩ := step_returning_goesOn hreturned.control
    (hreturned.stack_eq (c := { m with
      host := m.host.enterFrame
      control := .running (Frame.start unit (.function name) _ f.receiver)
      stack := [] }) hstep) hhalted hdest
  exact ⟨f', (run_succ' m n).trans hf', hgoesOn⟩

/-- The frame that calls `f` with all its registers, the last of which holds 7. -/
def fullCaller : Frame where
  unit := 0
  scope := .topLevel
  registers := (Vector.replicate registerCount .nil).set 31 (.int 7)
  receiver := .main
  position := 2

/-- Code may call a function with all 32 registers, but the last argument does not arrive: the new
frame has nil in every register. -/
theorem last_argument_lost :
    ∃ top function : CodeUnit,
      Assembly.assemble ".def f\nret r31\n.end\nint r31, 7\ncall r0, f, r0, 32\n" "a.nl"
          = .ok [top, function]
        ∧ top.instructions[2]? = some { opcode := .call, mode := 32 }
        ∧ let m := fun n =>
            ((idle { units := [top, function] } {}).enter 0 .topLevel [] .main).run n
          (m 2).control = .running fullCaller ∧ fullCaller.registers[0 + 31]? = some (.int 7)
            ∧ (m 3).control = .running {
              unit := 1, scope := .function "f", receiver := .main
              registers := Vector.replicate registerCount .nil } := by
  refine ⟨{
    filename := some "a.nl", symbols := ["f"], children := [1], lines := [1, 4, 5, 5]
    instructions := [{ opcode := .define }, { opcode := .loadInt, dest := 31, imm := 7 },
      { opcode := .call, mode := 32 }, { opcode := .halt }] },
    { filename := some "a.nl", lines := [2], instructions := [{ opcode := .ret, src1 := 31 }] }, ?_⟩
  decide +kernel

/-- The last two registers are handed to a function that returns its second argument. -/
theorem call_passes_arguments_second :
    let i : Instruction := { opcode := .call, dest := 3, src1 := 30, mode := 2 }
    let u : CodeUnit := { instructions := [i], symbols := ["second"] }
    let function : CodeUnit := { instructions := [{ opcode := .ret, src1 := 2 }] }
    let f : Frame := { fullCaller with position := 0 }
    let m : Machine := {
      host := ({ units := [u, function] } : Host).defineFunction "second" 1
      world := {}, control := .running f }
    ReadsCall "call r3, second, r30, 2".toList i
      ∧ (∃ callee : Frame, m.step = { m with
          host := m.host.enterFrame, control := .running callee, stack := [.call f 3] }
        ∧ callee.Receives f i)
      ∧ ∃ f' : Frame, (m.run 3).control = .running f' ∧ f'.GoesOnWith f 3 (.int 7) := by
  intro i u function f m
  have hread : ReadsCall "call r3, second, r30, 2".toList i :=
    ⟨{ instruction := i, reference := .symbol "second" }, by decide +kernel, rfl, rfl⟩
  have hreturned : m.SeesReturned 2 (.int 7) := by
    refine ⟨fun k hk hle => ?_, by decide +kernel, by decide +kernel⟩
    obtain rfl | rfl : k = 1 ∨ k = 2 := by omega
    · decide +kernel
    · decide +kernel
  obtain ⟨⟨callee, hstep, -, -, hreceives⟩, hback⟩ :=
    call_passes_arguments (m := m) (f := f) (u := u) (i := i) rfl rfl rfl ⟨_, hread⟩
      (show u.symbol? i.imm = some "second" by decide)
      (show m.host.functions.get? "second" = some 1 by decide) (by decide)
  obtain ⟨f', hf', hgoesOn⟩ := hback 2 (.int 7) hreturned (by decide +kernel)
  exact ⟨hread, ⟨callee, hstep, hreceives⟩, f', congrArg Machine.control hf', hgoesOn⟩

end ModuleHost
