import ModuleHost.Proofs.Machine.Executed

/-!
# What an instruction cannot do

Two instructions stand out: a definition binds a name (`definition?`), and a call enters the unit of
a function (`functionCall?`), if not too many frames are active.  Every other instruction that
calls no builtin leaves the functions as they are, and if it raises, then for another reason
(`ordinary_fetch`).
-/

namespace ModuleHost

def Exception.IsOverflow (e : Exception) : Prop := e.className = stackOverflow.className

section

variable (message receiver : String) (op : ArithOp) (a b : Value)

theorem Exception.not_isOverflow_runtimeError : ¬ (runtimeError message).IsOverflow :=
  show "RuntimeError" ≠ "SystemStackError" by decide

theorem Exception.not_isOverflow_typeError : ¬ (typeError message).IsOverflow :=
  show "TypeError" ≠ "SystemStackError" by decide

theorem Exception.not_isOverflow_argumentError : ¬ (argumentError message).IsOverflow :=
  show "ArgumentError" ≠ "SystemStackError" by decide

theorem Exception.not_isOverflow_undefinedMethod :
    ¬ (undefinedMethod message receiver).IsOverflow :=
  show "NoMethodError" ≠ "SystemStackError" by decide

end

namespace Machine

/-- The function that the next instruction of the frame calls, by its name and its unit, with the
register for the result before them and the arguments behind. -/
def functionCall? (m : Machine) (f : Frame) : Option (UInt8 × String × Nat × List Value) := do
  let u ← m.host.units[f.unit]?
  let i ← u.instructions[f.position]?
  if i.opcode = .call then
    let name ← u.symbol? i.imm
    let args ← f.window? i.src1.toNat i.mode.toNat
    (m.host.functions.get? name).map fun unit => (i.dest, name, unit, args)
  else none

/-- The name that the next instruction of the frame binds, and the unit to which it does. -/
def definition? (m : Machine) (f : Frame) : Option (String × Nat) := do
  let u ← m.host.units[f.unit]?
  let i ← u.instructions[f.position]?
  if i.opcode = .define then
    let name ← u.symbol? i.imm
    (u.children[i.mode.toNat]?).map fun offset => (name, f.unit + offset.toNat)
  else none

section

variable {m : Machine} {f : Frame}

/-- A step that calls a function. -/
theorem fetch_of_functionCall? {dest : UInt8} {name : String} {unit : Nat} {args : List Value}
    (h : m.functionCall? f = some (dest, name, unit, args)) :
    m.host.functions.get? name = some unit
      ∧ m.fetch f = (m.push (.call f dest)).enter unit (.function name) args f.receiver := by
  simp only [functionCall?, Option.bind_eq_bind, Option.bind_eq_some_iff,
    Option.ite_none_right_eq_some, Option.map_eq_some_iff, Prod.mk.injEq] at h
  obtain ⟨u, hu, i, hi, hop, _, hn, _, ha, _, hf, rfl, rfl, rfl, rfl⟩ := h
  refine ⟨hf, ?_⟩
  simp only [fetch, hu, hi, execute?, hop, withSymbol, hn, ha, callByName, hf, Option.getD_some]

/-- A step that binds a name. -/
theorem fetch_of_definition? {name : String} {unit : Nat}
    (h : m.definition? f = some (name, unit)) :
    m.fetch f = { m with host := m.host.defineFunction name unit }.continueWith f.advance := by
  simp only [definition?, Option.bind_eq_bind, Option.bind_eq_some_iff,
    Option.ite_none_right_eq_some, Option.map_eq_some_iff, Prod.mk.injEq] at h
  obtain ⟨u, hu, i, hi, hop, _, hn, offset, ho, rfl, rfl⟩ := h
  simp only [fetch, hu, hi, execute?, hop, withSymbol, hn, ho, Option.getD_some]

/-- Only a child of the unit that runs is bound. -/
theorem child_of_definition? {name : String} {unit : Nat}
    (h : m.definition? f = some (name, unit)) :
    ∃ u, m.host.units[f.unit]? = some u ∧ ∃ offset ∈ u.children, unit = f.unit + offset.toNat := by
  simp only [definition?, Option.bind_eq_bind, Option.bind_eq_some_iff,
    Option.ite_none_right_eq_some, Option.map_eq_some_iff, Prod.mk.injEq] at h
  obtain ⟨u, hu, i, -, -, _, -, offset, ho, -, hunit⟩ := h
  exact ⟨u, hu, offset, List.mem_of_getElem? ho, hunit.symm⟩

end

/-- The machine `m'` has the functions of `m`, and if an exception has been raised, it is not that
too many frames are active. -/
structure Ordinary (m m' : Machine) : Prop where
  functions : m'.host.functions = m.host.functions
  raised : ∀ e, m'.control = .raising e → ¬ e.IsOverflow

def Ordinarily (m : Machine) (m? : Option Machine) : Prop := ∀ m' ∈ m?, Ordinary m m'

section

variable {m : Machine} {f : Frame} {u : CodeUnit} {i : Instruction}

/-- The frame goes on, or ends with a value. -/
theorem ordinary_of_functions {m' : Machine} (hf : m'.host.functions = m.host.functions)
    (hc : ∀ e, m'.control ≠ .raising e) : Ordinary m m' := ⟨hf, fun e he => absurd he (hc e)⟩

theorem ordinary_raiseIn (f : Frame) {e : Exception} (he : ¬ e.IsOverflow) :
    Ordinary m (m.raiseIn f e) := by
  refine ⟨rfl, fun e' he' => ?_⟩
  cases he'
  exact he

/-- An instruction that calls nothing and binds nothing. -/
theorem ordinary_execute? (hu : m.host.units[f.unit]? = some u)
    (hi : u.instructions[f.position]? = some i) (hb : m.builtinCall? f = none)
    (hc : m.functionCall? f = none) (hd : m.definition? f = none) :
    Ordinarily m (m.execute? f u i) := by
  have hparts : Parts (fun m' _ => Ordinary m m') m m f f u u i := {
    goesOn := fun hs _ _ => by cases hs <;> exact ordinary_of_functions rfl nofun
    jumps := fun _ _ => ordinary_of_functions rfl nofun
    binds := fun {name offset} hop hn ho => by
      have hdefines : m.definition? f = some (name, f.unit + offset.toNat) := by
        simp [definition?, hu, hi, hop, hn, ho]
      rw [hdefines] at hd
      cases hd
    calls := fun {name args} hop hn ha => by
      unfold callByName
      cases hf : m.host.functions.get? name with
      | some unit =>
        have hcall : m.functionCall? f = some (i.dest, name, unit, args) := by
          simp [functionCall?, hu, hi, hop, hn, ha, hf]
        rw [hcall] at hc
        cases hc
      | none =>
        rw [builtinCall?_of_instruction hu hi hop hn ha hf, Option.map_eq_none_iff] at hb
        rw [hb]
        exact ordinary_raiseIn f (Exception.not_isOverflow_undefinedMethod _ _)
    raises := fun he => by
      cases he with
      | runtime message => exact ordinary_raiseIn f (Exception.not_isOverflow_runtimeError _)
      | type message => exact ordinary_raiseIn f (Exception.not_isOverflow_typeError _)
    returns := fun _ _ => ordinary_of_functions rfl nofun
    halts := fun _ => ordinary_of_functions rfl nofun }
  exact hparts.forall_mem

/-- A step that calls nothing and binds nothing. -/
theorem ordinary_fetch (hb : m.builtinCall? f = none) (hc : m.functionCall? f = none)
    (hd : m.definition? f = none) : Ordinary m (m.fetch f) := by
  unfold fetch
  cases hu : m.host.units[f.unit]? with
  | none =>
    refine ⟨rfl, fun e he => ?_⟩
    cases he
    exact Exception.not_isOverflow_runtimeError _
  | some u =>
    dsimp only
    cases hi : u.instructions[f.position]? with
    | none => exact ordinary_of_functions rfl nofun
    | some i =>
      dsimp only
      cases hm : m.execute? f u i with
      | none => exact ordinary_of_functions rfl nofun
      | some m' => exact ordinary_execute? hu hi hb hc hd m' hm

end

end Machine

end ModuleHost
