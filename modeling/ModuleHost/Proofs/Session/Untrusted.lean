import ModuleHost.Proofs.Machine.Lookups

/-!
# Bytecode from anywhere

A reader checks of the units in a stream that their operations, registers and children exist, and
nothing else.  That is enough: whatever the symbol indices, jump targets, child numbers, windows of
arguments and arithmetic modes are, a frame that runs such a unit goes on, raises an exception or
returns, and never looks anything up that is out of range (`bytecode_safe`).
-/

namespace ModuleHost

open Machine

/-- What a reader has made sure of in the unit at position `k` of `total`. -/
structure CodeUnit.Checked (total k : Nat) (u : CodeUnit) : Prop where
  /-- Every instruction can be decoded, so that it has an operation. -/
  decodes : ∀ i ∈ u.instructions, Instruction.decode? i.encode = some i
  registers : u.RegistersValid
  lines : u.lines.length = u.instructions.length
  children : u.ChildrenWithin total k

/-- The bytecode file is being loaded; `loadBytecodeFile` runs this machine. -/
def Machine.startBytecode (h : Host) (w : World) (path attribution : String) : Machine :=
  (idle h w).loadBytecode ((idle h w).newLoad none) path attribution

theorem Bytecode.checked_of_read {bytes : List UInt8} {us : List CodeUnit}
    (hr : Bytecode.read bytes = .ok us) :
    us ≠ [] ∧ ∀ (k : Nat) (u : CodeUnit), us[k]? = some u → u.Checked us.length k := by
  obtain ⟨hne, hchildren⟩ := read_accepted hr
  refine ⟨hne, fun k u hu => ?_⟩
  have hnormal := isNormal_of_read hr u (List.mem_of_getElem? hu)
  refine ⟨fun i hi => ?_, hnormal.registers, hnormal.lines, hchildren k u hu⟩
  rw [Instruction.decode?_encode, Instruction.maskRegisters_of_valid (hnormal.registers i hi)]

theorem Machine.vetted_startBytecode (h : Host) (w : World) (path attribution : String) :
    (startBytecode h w path attribution).Vetted h.units :=
  (loadBytecode_cases (idle h w) _ path attribution).vetted (fun _ hu => Or.inl hu) nofun

/-- A machine that has come to its end has a result, unless it is stuck. -/
theorem Machine.isSome_loaded? {m : Machine} (hdone : m.isDone = true) (hc : m.control ≠ .stuck) :
    m.loaded?.isSome = true := by
  obtain ⟨host, world, control, stack⟩ := m
  cases control with
  | running f => cases hdone
  | stuck => exact absurd rfl hc
  | returning | raising | failing => rfl

/-- Units that a reader accepts are checked, and every frame of any machine that runs one of them,
as it was read or as it is put into the table, is guarded.  However long a file of bytecode is
loaded into whatever host, the machine is not stuck, its frame is guarded, and if it has come to its
end then with a result, unless a unit that was in the table before has an instruction that names a
register which does not exist and this instruction has been run. -/
theorem bytecode_safe :
    (∀ (bytes : List UInt8) (us : List CodeUnit), Bytecode.read bytes = .ok us →
      (us ≠ [] ∧ ∀ (k : Nat) (u : CodeUnit), us[k]? = some u → u.Checked us.length k)
        ∧ ∀ (m : Machine) (f : Frame) (u : CodeUnit), m.control = .running f →
            m.host.units[f.unit]? = some u →
            (u ∈ us ∨ ∃ attribution, u ∈ CodeUnit.placed attribution us) → m.Guarded f)
      ∧ ∀ (h : Host) (w : World) (path attribution : String) (n : Nat),
          let m := fun n => (startBytecode h w path attribution).run n
          (∃ k ≤ n, (m k).Errs h.units)
            ∨ (m n).control ≠ .stuck ∧ (∀ f, (m n).control = .running f → (m n).Guarded f)
              ∧ ((m n).isDone = true → (m n).loaded?.isSome = true) := by
  constructor
  · intro bytes us hr
    refine ⟨Bytecode.checked_of_read hr, fun m f u hc hu hus => ?_⟩
    have hvalid : u.RegistersValid := by
      have hread := CodeUnit.registersValid_of_read hr
      rcases hus with hus | ⟨attribution, hus⟩
      · exact hread u hus
      · exact CodeUnit.registersValid_placed hread attribution u hus
    refine guarded_of_registers hc fun i hi => ?_
    obtain ⟨v, hv, hi⟩ := Host.instruction?_eq_some_iff.1 hi
    obtain rfl : v = u := Option.some.inj (hv.symm.trans hu)
    exact hvalid i (List.mem_of_getElem? hi)
  · intro h w path attribution n m
    rcases vetted_run (vetted_startBytecode h w path attribution) n with ⟨k, hk, herrs⟩ | hvetted
    · exact Or.inl ⟨k, Nat.le_of_lt hk, herrs⟩
    · by_cases herrs : (m n).Errs h.units
      · exact Or.inl ⟨n, Nat.le_refl n, herrs⟩
      · refine Or.inr ⟨hvetted.control, fun f hc => ?_, fun hdone => ?_⟩
        · exact guarded_of_registers hc fun i => hvetted.registersValid hc herrs
        · exact isSome_loaded? hdone hvetted.control

/-- A unit whose only instruction names a symbol that the unit does not have. -/
def astrayModule : List UInt8 :=
  (Bytecode.Field.ofUnits [{ instructions := [{ opcode := .loadStr, imm := 7 }] }]).flatMap
    Bytecode.Field.bytes

/-- The module is accepted, and loading it raises an exception. -/
theorem bytecode_safe_astray :
    let m := fun n =>
      (startBytecode {} { files := .single "a.nlb" astrayModule } "/a.nlb" "/a.nlb").run n
    let f := Frame.start 0 .topLevel [] .main
    (m 0).control = .running f ∧ (m 0).Misstep f "invalid symbol index 7" ∧ (m 0).Guarded f
      ∧ (∀ n, (m n).control ≠ .stuck)
      ∧ (m 2).loaded? = some (.error (.raised
          { className := "RuntimeError", message := "invalid symbol index 7"
            backtrace := ["/a.nlb:0:in <main>"] })) := by
  intro m f
  have hname : Path.IsName "a.nlb" := ⟨by decide, by decide, by decide, by decide, by decide⟩
  have hopen := FileTree.openEntry_single hname astrayModule []
  have hread : Bytecode.read astrayModule
      = .ok [{ instructions := [{ opcode := .loadStr, imm := 7 }], lines := [0] }] := by
    decide
  have hstart : startBytecode {} { files := .single "a.nlb" astrayModule } "/a.nlb" "/a.nlb" = _ :=
    loadBytecode_of_openEntry (m := idle {} { files := .single "a.nlb" astrayModule }) hopen
  have hcontrol : (m 0).control = .running f := by
    show (startBytecode _ _ _ _).control = _
    rw [hstart]
    decide
  obtain ⟨hreads, hloads⟩ := bytecode_safe
  have hunit : (m 0).host.units[f.unit]? = some
      { filename := some "/a.nlb", lines := [0]
        instructions := [{ opcode := .loadStr, imm := 7 }] } := by
    show (startBytecode _ _ _ _).host.units[0]? = _
    rw [hstart]
    decide
  refine ⟨hcontrol, .symbol hunit rfl rfl (by decide), ?_, fun n => ?_, ?_⟩
  · exact (hreads _ _ hread).2 (m 0) f _ hcontrol hunit (Or.inr ⟨"/a.nlb", by decide⟩)
  · rcases hloads {} _ "/a.nlb" "/a.nlb" n with ⟨_, _, _, _, _, _, _, hold, _⟩ | ⟨hcontrol, _⟩
    · cases hold
    · exact hcontrol
  · show ((startBytecode _ _ _ _).run 2).loaded? = _
    rw [hstart]
    decide

end ModuleHost
