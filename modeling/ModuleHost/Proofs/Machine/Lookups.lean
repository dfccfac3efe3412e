import ModuleHost.Proofs.Machine.Registers

/-!
# Look-ups

A running frame looks up its unit, its next instruction and what the instruction names: registers, a
symbol, an operation, a window of arguments, a child, a target.  All but the registers are looked up
with care: what is missing raises an exception (`Machine.Misstep`), and a frame whose instructions
have come to an end returns nil.  So a frame is `Guarded` if the registers exist
(`guarded_of_registers`), whatever else its instruction holds.
-/

namespace ModuleHost.Machine

/-- All that the instruction `i` of the unit `u` makes the frame look up is there. -/
structure InRange (m : Machine) (f : Frame) (u : CodeUnit) (i : Instruction) : Prop where
  unit : m.host.units[f.unit]? = some u
  instruction : u.instructions[f.position]? = some i
  registers : ∀ r ∈ [i.dest, i.src1, i.src2], (f.read? r).isSome = true
  symbol : i.opcode.hasSymbolOperand = true → (u.symbol? i.imm).isSome = true
  operation : i.opcode = .arith → (ArithOp.ofCode? i.mode).isSome = true
  arguments : i.opcode = .call → (f.window? i.src1.toNat i.mode.toNat).isSome = true
  child : i.opcode = .define → (u.children[i.mode.toNat]?).isSome = true
  target : (i.opcode = .jump ∨ ∃ value, f.read? i.src1 = some value
      ∧ (i.opcode = .jumpIf ∧ value.isTruthy = true ∨ i.opcode = .jumpUnless ∧ value.isTruthy = false)) →
    0 ≤ i.imm

/-- Every look-up of the frame is in range, or ends in an exception or a nil that is returned. -/
inductive Guarded (m : Machine) (f : Frame) : Prop
  | missing {message : String} {backtrace : List String} (h : m.Misstep f message)
      (hraises : (m.fetch f).control
        = .raising { className := "RuntimeError", message, backtrace })
  | ended {u : CodeUnit} (hu : m.host.units[f.unit]? = some u)
      (hi : u.instructions[f.position]? = none) (hreturns : (m.fetch f).control = .returning .nil)
  | found {u : CodeUnit} {i : Instruction} (h : m.InRange f u i)
      (hsteps : (m.fetch f).control ≠ .stuck)

variable {m : Machine} {f : Frame}

/-- An instruction whose registers exist gets no machine stuck, whatever waits in it. -/
theorem control_fetch_ne_stuck (hc : m.control = .running f)
    (hvalid : ∀ i, m.host.instruction? f = some i → i.RegistersValid) :
    (m.fetch f).control ≠ .stuck := by
  have hvetted : Vetted m.host.units { m with stack := [] } :=
    ⟨fun u hu => Or.inl hu, nofun, fun hstuck => by cases hc.symm.trans hstuck⟩
  have habove : m.fetch f = (fetch { m with stack := [] } f).above m.stack :=
    fetch_above { m with stack := [] } m.stack f
  rw [habove, above_control]
  exact (hvetted.fetch hvalid).control

/-- A frame that makes no misstep finds what its instruction names. -/
theorem inRange_of_not_misstep {u : CodeUnit} {i : Instruction} (hu : m.host.units[f.unit]? = some u)
    (hi : u.instructions[f.position]? = some i) (hvalid : i.RegistersValid)
    (h : ∀ message, ¬ m.Misstep f message) : m.InRange f u i := by
  have hsymbol : i.opcode.hasSymbolOperand = true → (u.symbol? i.imm).isSome = true := by
    intro hop
    cases hn : u.symbol? i.imm with
    | none => exact absurd (.symbol hu hi hop hn) (h _)
    | some name => rfl
  have hname : i.opcode.hasSymbolOperand = true → ∃ name, u.symbol? i.imm = some name := fun hop =>
    Option.isSome_iff_exists.1 (hsymbol hop)
  refine ⟨hu, hi, fun r hr => ?_, hsymbol, fun hop => ?_, fun hop => ?_, fun hop => ?_, fun hop => ?_⟩
  · obtain ⟨hdest, hsrc1, hsrc2⟩ := hvalid
    have hlt : r < 32 := by
      simp only [List.mem_cons, List.not_mem_nil, or_false] at hr
      rcases hr with rfl | rfl | rfl
      · exact hdest
      · exact hsrc1
      · exact hsrc2
    exact Option.isSome_iff_exists.2 (f.exists_read? hlt)
  · cases hm : ArithOp.ofCode? i.mode with
    | none => exact absurd (.arith hu hi hop hm) (h _)
    | some op => rfl
  · obtain ⟨name, hn⟩ := hname (by rw [hop]; rfl)
    cases hw : f.window? i.src1.toNat i.mode.toNat with
    | none => exact absurd (.window hu hi hop hn hw) (h _)
    | some args => rfl
  · obtain ⟨name, hn⟩ := hname (by rw [hop]; rfl)
    cases hc : u.children[i.mode.toNat]? with
    | none => exact absurd (.child hu hi hop hn hc) (h _)
    | some offset => rfl
  · by_contra hnegative
    exact absurd (.target hu hi hop (Int32.not_le.1 hnegative)) (h _)

/-- If the registers of its next instruction exist, a frame looks up nothing else without care. -/
theorem guarded_of_registers (hc : m.control = .running f)
    (hvalid : ∀ i, m.host.instruction? f = some i → i.RegistersValid) : m.Guarded f := by
  by_cases hmisstep : ∃ message, m.Misstep f message
  · obtain ⟨message, hmisstep⟩ := hmisstep
    obtain ⟨backtrace, hraises⟩ := fetch_of_misstep hmisstep
    exact .missing hmisstep hraises
  · have hnot := not_exists.1 hmisstep
    cases hu : m.host.units[f.unit]? with
    | none => exact absurd (.unit hu) (hnot _)
    | some u =>
      cases hi : u.instructions[f.position]? with
      | none =>
        refine .ended hu hi ?_
        rw [fetch, hu]
        dsimp only
        rw [hi]
        rfl
      | some i =>
        have hfound := inRange_of_not_misstep hu hi
          (hvalid i (Host.instruction?_eq_some_iff.2 ⟨u, hu, hi⟩)) hnot
        exact .found hfound (control_fetch_ne_stuck hc hvalid)

end ModuleHost.Machine
