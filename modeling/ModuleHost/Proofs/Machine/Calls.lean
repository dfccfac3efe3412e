import ModuleHost.Proofs.Machine.Executed

/-!
# Calls of builtins

A call in code loads a text into a register and hands the register to a builtin
(`arrives_builtin`).  The builtin may take many steps, as `require` does; once it has returned a
value the frame goes on behind the call (`arrives_behind`).
-/

namespace ModuleHost.Machine

def Arrives (m m' : Machine) : Prop := ∃ n, m.run n = m'

theorem Arrives.refl (m : Machine) : m.Arrives m := ⟨0, rfl⟩

theorem Arrives.trans {m m' m'' : Machine} (h : m.Arrives m') (h' : m'.Arrives m'') :
    m.Arrives m'' := by
  obtain ⟨a, rfl⟩ := h
  obtain ⟨b, rfl⟩ := h'
  exact ⟨a + b, run_add m a b⟩

theorem Arrives.of_step {m m' : Machine} (h : m.step.Arrives m') : m.Arrives m' := by
  obtain ⟨n, hn⟩ := h
  exact ⟨n + 1, by rw [run_succ, hn]⟩

variable {h : Host} {w : World} {f : Frame} {s : List Activation} {u : CodeUnit}
  {r q : UInt8} {imm : Int32} {text name : String} {b : Builtin} {value : Value}

theorem step_loadStr (hu : h.units[f.unit]? = some u)
    (hi : u.instructions[f.position]? = some { opcode := .loadStr, dest := r, imm })
    (hs : u.symbol? imm = some text) (hr : r.toNat < registerCount) :
    ({ host := h, world := w, control := .running f, stack := s } : Machine).step
      = { host := h.pushArena [.str text], world := w, stack := s
          control := .running
            { f with registers := f.registers.set r.toNat (.str text) hr }.advance } := by
  have hwrite : f.write? r (.str text)
      = some { f with registers := f.registers.set r.toNat (.str text) hr } := dif_pos hr
  simp only [step, fetch, hu, hi, execute?, withSymbol, hs, assign?, hwrite, Option.map_some,
    Option.getD_some, continueWith]

/-- A call of a builtin with the text in a register. -/
theorem step_call (hu : h.units[f.unit]? = some u)
    (hi : u.instructions[f.position]?
      = some { opcode := .call, dest := q, src1 := r, mode := 1, imm })
    (hs : u.symbol? imm = some name) (hfunctions : h.functions.get? name = none)
    (hb : h.builtin? name = some b) (hr : r.toNat < registerCount)
    (hv : f.registers[r.toNat] = .str text) :
    ({ host := h, world := w, control := .running f, stack := s } : Machine).step
      = ({ host := h, world := w, control := .running f, stack := .call f q :: s } :
          Machine).callBuiltin b [.str text] := by
  have hone : (1 : UInt8).toNat = 1 := rfl
  have hwindow : f.window? r.toNat 1 = some [.str text] := by
    have hlt : r.toNat < f.registers.toList.length := by simpa using hr
    rw [Frame.window?, if_pos (Nat.succ_le_of_lt hr), List.drop_eq_getElem_cons hlt,
      List.take_succ_cons, List.take_zero, Vector.getElem_toList, hv]
  simp only [step, fetch, hu, hi, execute?, withSymbol, hs, hone, hwindow, callByName, hfunctions,
    hb, Option.getD_some, push]

theorem step_returning (hhalted : h.halted = false) (hq : q.toNat < registerCount) :
    ({ host := h, world := w, control := .returning value, stack := .call f q :: s } :
        Machine).step
      = { host := h, world := w, stack := s
          control := .running
            { f with registers := f.registers.set q.toNat value hq }.advance } := by
  have hwrite : f.write? q value = some { f with registers := f.registers.set q.toNat value hq } :=
    dif_pos hq
  simp only [step, returnTo, resume, hhalted, assign?, hwrite, Option.map_some, Option.getD_some,
    continueWith]
  rfl

/-- The next two instructions and those behind them. -/
theorem getElem?_of_drop {is after : List Instruction} {n : Nat} {i₁ i₂ : Instruction}
    (h : is.drop n = i₁ :: i₂ :: after) :
    is[n]? = some i₁ ∧ is[n + 1]? = some i₂ ∧ is.drop (n + 1 + 1) = after := by
  refine ⟨?_, ?_, ?_⟩
  · rw [← Nat.add_zero n, ← List.getElem?_drop, h]
    rfl
  · rw [← List.getElem?_drop, h]
    rfl
  · rw [Nat.add_assoc, ← List.drop_drop, h]
    rfl

/-- A text is loaded and a builtin is called with it. -/
theorem arrives_builtin {i j : Int32} (hu : h.units[f.unit]? = some u)
    (hload : u.instructions[f.position]? = some { opcode := .loadStr, dest := r, imm := i })
    (hcall : u.instructions[f.position + 1]?
      = some { opcode := .call, dest := q, src1 := r, mode := 1, imm := j })
    (hi : u.symbol? i = some text) (hj : u.symbol? j = some name) (hr : r.toNat < registerCount)
    (hfunctions : h.functions.get? name = none) (hb : h.builtin? name = some b) :
    ∃ f' : Frame, f'.unit = f.unit ∧ f'.position = f.position + 1
      ∧ ({ host := h, world := w, control := .running f, stack := s } : Machine).Arrives
        (({ host := h.pushArena [.str text], world := w, control := .running f'
            stack := .call f' q :: s } : Machine).callBuiltin b [.str text]) := by
  have hstart := step_loadStr (w := w) (s := s) hu hload hi hr
  generalize hf' : ({ f with registers := f.registers.set r.toNat (.str text) hr } : Frame).advance
    = f' at hstart
  have hunit : f'.unit = f.unit := by
    rw [← hf']
    rfl
  have hposition : f'.position = f.position + 1 := by
    rw [← hf']
    rfl
  have hvalue : f'.registers[r.toNat] = .str text := by
    rw [← hf']
    exact Vector.getElem_set_self hr
  have hu' : (h.pushArena [.str text]).units[f'.unit]? = some u := by
    rw [hunit]
    exact hu
  rw [← hposition] at hcall
  refine ⟨f', hunit, hposition, ?_⟩
  apply Arrives.of_step
  rw [hstart]
  apply Arrives.of_step
  rw [step_call hu' hcall hj hfunctions hb hr hvalue]
  exact .refl _

/-- The builtin has returned and the frame goes on behind the call. -/
theorem arrives_behind (value : Value) (hhalted : h.halted = false) (hq : q.toNat < registerCount) :
    ∃ f' : Frame, f'.unit = f.unit ∧ f'.position = f.position + 1
      ∧ ({ host := h, world := w, control := .returning value, stack := .call f q :: s } :
          Machine).Arrives { host := h, world := w, control := .running f', stack := s } := by
  refine ⟨({ f with registers := f.registers.set q.toNat value hq } : Frame).advance, rfl, rfl, ?_⟩
  apply Arrives.of_step
  rw [step_returning hhalted hq]
  exact .refl _

/-- The two instructions that have taken the place of a halt. -/
theorem arrives_return (hu : h.units[f.unit]? = some u)
    (hnil : u.instructions[f.position]? = some { opcode := .loadNil })
    (hret : u.instructions[f.position + 1]? = some { opcode := .ret }) :
    ({ host := h, world := w, control := .running f, stack := s } : Machine).Arrives
      { host := h.leaveFrame, world := w, control := .returning .nil, stack := s } := by
  have hzero : (0 : UInt8).toNat < registerCount := by decide
  have hwrite : f.write? 0 .nil
      = some { f with registers := f.registers.set (0 : UInt8).toNat .nil hzero } := dif_pos hzero
  have hfirst : ({ host := h, world := w, control := .running f, stack := s } : Machine).step
      = { host := h, world := w, stack := s
          control := .running { f with
            registers := f.registers.set (0 : UInt8).toNat .nil hzero }.advance } := by
    simp only [step, fetch, hu, hnil, execute?, assign?, hwrite, Option.map_some, Option.getD_some,
      continueWith]
  apply Arrives.of_step
  rw [hfirst]
  generalize hf₁ : ({ f with
    registers := f.registers.set (0 : UInt8).toNat .nil hzero } : Frame).advance = f₁
  have hunit : f₁.unit = f.unit := by
    rw [← hf₁]
    rfl
  have hposition : f₁.position = f.position + 1 := by
    rw [← hf₁]
    rfl
  have hread : f₁.read? 0 = some .nil := by
    rw [← hf₁]
    exact (Vector.getElem?_eq_getElem hzero).trans (congrArg some (Vector.getElem_set_self hzero))
  apply Arrives.of_step
  have hsecond : ({ host := h, world := w, control := .running f₁, stack := s } : Machine).step
      = { host := h.leaveFrame, world := w, control := .returning .nil, stack := s } := by
    simp only [step, fetch, hunit, hu, hposition, hret, execute?, hread, Option.bind_eq_bind,
      Option.bind_some, Option.getD_some, returnFrom]
  rw [hsecond]
  exact .refl _

end ModuleHost.Machine
