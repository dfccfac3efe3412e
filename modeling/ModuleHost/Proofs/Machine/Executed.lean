import ModuleHost.Proofs.Machine.Above

/-!
# What an instruction can do

The eighteen operations fall into a few kinds of steps.  Either the instruction calls a builtin, and
then `builtinCall?` says which one with which arguments, or the step is one of `Executed`: the frame
goes on, ends, raises, or calls a function.  Whatever every instruction keeps is shown once for each
of these kinds and never by looking at the operations again.
-/

namespace ModuleHost

/-- The instruction that the frame executes, or will execute next. -/
def Host.instruction? (h : Host) (f : Frame) : Option Instruction := do
  let u ← h.units[f.unit]?
  u.instructions[f.position]?

theorem Host.instruction?_eq_some_iff {h : Host} {f : Frame} {i : Instruction} :
    h.instruction? f = some i
      ↔ ∃ u, h.units[f.unit]? = some u ∧ u.instructions[f.position]? = some i :=
  Option.bind_eq_some_iff

/-- A register that exists can be read. -/
theorem Frame.exists_read? (f : Frame) {r : UInt8} (h : r < 32) : ∃ value, f.read? r = some value :=
  ⟨_, Vector.getElem?_eq_getElem (UInt8.lt_iff_toNat_lt.1 h)⟩

/-- A register that exists can be set. -/
theorem Frame.exists_write? (f : Frame) {r : UInt8} (h : r < 32) (value : Value) :
    ∃ f', f.write? r value = some f' :=
  ⟨_, dif_pos (UInt8.lt_iff_toNat_lt.1 h)⟩

namespace Machine

/-- The builtin that the next instruction of the frame calls, with the register for its result and
the arguments. -/
def builtinCall? (m : Machine) (f : Frame) : Option (UInt8 × Builtin × List Value) := do
  let u ← m.host.units[f.unit]?
  let i ← u.instructions[f.position]?
  if i.opcode = .call then
    let name ← u.symbol? i.imm
    let args ← f.window? i.src1.toNat i.mode.toNat
    match m.host.functions.get? name with
    | some _ => none
    | none => (m.host.builtin? name).map fun b => (i.dest, b, args)
  else none

theorem nameArgument_eq_ok {args : List Value} {name : String} (h : nameArgument args = .ok name) :
    args = [.str name] := by
  unfold nameArgument at h
  split at h
  · cases h
    rfl
  · cases h
  · cases h

/-- What calling a builtin can come to.  A load that has found its file goes on with the loader for
it. -/
inductive Called (m : Machine) : Builtin → List Value → Machine → Prop
  | prints (args : List Value) : Called m .print args { m with
      host := m.host.printLine (String.intercalate " " (args.map Value.text))
      control := .returning .nil }
  | adds (dir : String) : Called m .addLoadPath [.str dir] { m with
      host := { m.host with searchPath := m.host.searchPath.push dir }
      control := .returning .nil }
  | refuses {b : Builtin} {args : List Value} {e : Exception} (he : nameArgument args = .error e) :
      Called m b args { m with control := .raising e }
  | unresolved {b : Builtin} {name : String} {e : LoadError} (hb : b = .load ∨ b = .require)
      (hr : m.world.resolve m.host.searchPath name = .error e) :
      Called m b [.str name] { m with control := .failing e }
  | known {name path : String} (hr : m.world.resolve m.host.searchPath name = .ok path)
      (hk : path ∈ m.host.ledger.loaded.entries ∨ path ∈ m.host.ledger.loading.entries) :
      Called m .require [.str name] { m with control := .returning (.bool false) }
  | loads {name path : String} (hr : m.world.resolve m.host.searchPath name = .ok path) :
      Called m .load [.str name] (m.dispatch (m.newLoad none) path)
  | requires {name path : String} (hr : m.world.resolve m.host.searchPath name = .ok path)
      (hf : m.host.ledger.state path = .fresh) :
      Called m .require [.str name]
        ((m.mapLedger (·.markLoading path)).dispatch (m.newLoad (some path)) path)

theorem called_load (m : Machine) (name : String) : Called m .load [.str name] (m.load name) := by
  unfold load
  cases hr : m.world.resolve m.host.searchPath name with
  | error e => exact .unresolved (Or.inl rfl) hr
  | ok path => exact .loads hr

theorem require_unresolved {m : Machine} {name : String} {e : LoadError}
    (hr : m.world.resolve m.host.searchPath name = .error e) :
    m.require name = { m with control := .failing e } := by
  rw [require, hr]

/-- A path that is known is passed over. -/
theorem require_known {m : Machine} {name path : String}
    (hr : m.world.resolve m.host.searchPath name = .ok path)
    (hk : path ∈ m.host.ledger.loaded.entries ∨ path ∈ m.host.ledger.loading.entries) :
    m.require name = { m with control := .returning (.bool false) } := by
  rw [require, hr]
  dsimp only
  rw [(Ledger.begin?_eq_none_iff _ _).2 hk]

/-- A path that can be begun is handed to its loader. -/
theorem require_begun {m : Machine} {name path : String} {ledger : Ledger}
    (hr : m.world.resolve m.host.searchPath name = .ok path)
    (hb : m.host.ledger.begin? path = some ledger) :
    m.require name = (m.mapLedger fun _ => ledger).dispatch (m.newLoad (some path)) path := by
  rw [require, hr]
  dsimp only
  rw [hb]
  rfl

theorem require_of_fresh {m : Machine} {name path : String}
    (hr : m.world.resolve m.host.searchPath name = .ok path)
    (hf : m.host.ledger.state path = .fresh) :
    m.require name
      = (m.mapLedger (·.markLoading path)).dispatch (m.newLoad (some path)) path :=
  require_begun hr ((Ledger.begin?_eq_some_iff _ _ _).2 ⟨hf, rfl⟩)

theorem called_require (m : Machine) (name : String) :
    Called m .require [.str name] (m.require name) := by
  cases hr : m.world.resolve m.host.searchPath name with
  | error e =>
    rw [require_unresolved hr]
    exact .unresolved (Or.inr rfl) hr
  | ok path =>
    cases hb : m.host.ledger.begin? path with
    | none =>
      have hk := (Ledger.begin?_eq_none_iff _ _).1 hb
      rw [require_known hr hk]
      exact .known hr hk
    | some ledger =>
      have hf := ((Ledger.begin?_eq_some_iff _ _ _).1 hb).1
      rw [require_of_fresh hr hf]
      exact .requires hr hf

theorem callBuiltin_cases (m : Machine) (b : Builtin) (args : List Value) :
    Called m b args (m.callBuiltin b args) := by
  have hname : ∀ {run : String → Machine}, (∀ name, Called m b [.str name] (run name)) →
      Called m b args (m.withName args run) := by
    intro run hrun
    unfold withName
    cases ha : nameArgument args with
    | error e => exact .refuses ha
    | ok name =>
      rw [nameArgument_eq_ok ha]
      exact hrun name
  cases b with
  | print => exact .prints args
  | load => exact hname (called_load m)
  | require => exact hname (called_require m)
  | addLoadPath => exact hname .adds

inductive Effect (f : Frame) (u : CodeUnit) (h : Host) : Host → Prop
  | none : Effect f u h h
  | string (text : String) : Effect f u h (h.pushArena [.str text])
  | global (name : String) (value : Value) : Effect f u h (h.setGlobal name value)
  | function (name : String) {offset : UInt32} (hc : offset ∈ u.children) :
      Effect f u h (h.defineFunction name (f.unit + offset.toNat))

/-- What the step of a running frame can come to when it calls no builtin. -/
inductive Executed (m : Machine) (f : Frame) : Machine → Prop
  | goesOn {u : CodeUnit} {host : Host} {f' : Frame} (hu : m.host.units[f.unit]? = some u)
      (he : Effect f u m.host host) (hunit : f'.unit = f.unit) (hscope : f'.scope = f.scope)
      (hreceiver : f'.receiver = f.receiver) :
      Executed m f { m with host, control := .running f' }
  | returns (value : Value) : Executed m f (m.returnFrom value)
  | halts : Executed m f ({ m with host := { m.host with halted := true } }.returnFrom .nil)
  | raises {e : Exception} (he : e.backtrace = []) : Executed m f (m.raiseIn f e)
  | lost (hu : m.host.units[f.unit]? = none) :
      Executed m f { m with
        host := m.host.leaveFrame
        control := .raising (.runtimeError ("no unit at index " ++ toString f.unit)) }
  | calls {name : String} {unit : Nat} (dest : UInt8) (args : List Value)
      (hf : m.host.functions.get? name = some unit)
      (hdest : ∃ i, m.host.instruction? f = some i ∧ i.dest = dest) :
      Executed m f ((m.push (.call f dest)).enter unit (.function name) args f.receiver)
  | stuck (hi : ∃ i, m.host.instruction? f = some i ∧ ¬ i.RegistersValid) :
      Executed m f { m with control := .stuck }

section

variable {m : Machine} {f : Frame} {u : CodeUnit} {i : Instruction}

theorem builtinCall?_of_instruction (hu : m.host.units[f.unit]? = some u)
    (hi : u.instructions[f.position]? = some i) {name : String} {args : List Value}
    (hop : i.opcode = .call) (hn : u.symbol? i.imm = some name)
    (ha : f.window? i.src1.toNat i.mode.toNat = some args)
    (hf : m.host.functions.get? name = none) :
    m.builtinCall? f = (m.host.builtin? name).map fun b => (i.dest, b, args) := by
  simp only [builtinCall?, hu, hi, hop, hn, ha, hf, Option.bind_eq_bind, Option.bind_some, if_true]

/-- The instruction that calls a builtin. -/
theorem instruction_of_builtinCall? {dest : UInt8} {b : Builtin} {args : List Value}
    (h : m.builtinCall? f = some (dest, b, args)) :
    ∃ u i name, m.host.units[f.unit]? = some u ∧ u.instructions[f.position]? = some i
      ∧ i.opcode = .call ∧ i.dest = dest ∧ u.symbol? i.imm = some name
      ∧ f.window? i.src1.toNat i.mode.toNat = some args ∧ m.host.functions.get? name = none
      ∧ m.host.builtin? name = some b := by
  simp only [builtinCall?, Option.bind_eq_bind, Option.bind_eq_some_iff,
    Option.ite_none_right_eq_some] at h
  obtain ⟨u, hu, i, hi, hop, name, hn, args', ha, h⟩ := h
  cases hf : m.host.functions.get? name with
  | some unit => rw [hf] at h; cases h
  | none =>
    rw [hf] at h
    obtain ⟨b', hb, he⟩ := Option.map_eq_some_iff.1 h
    cases he
    exact ⟨u, i, name, hu, hi, hop, rfl, hn, ha, hf, hb⟩

/-- A builtin that is called is one of the host's. -/
theorem mem_builtins_of_builtinCall? {dest : UInt8} {b : Builtin} {args : List Value}
    (h : m.builtinCall? f = some (dest, b, args)) : b ∈ m.host.builtins := by
  obtain ⟨_, _, _, _, _, _, _, _, _, _, hb⟩ := instruction_of_builtinCall? h
  exact List.mem_of_find?_eq_some hb

/-- A step that calls a builtin. -/
theorem fetch_of_builtinCall? {dest : UInt8} {b : Builtin} {args : List Value}
    (h : m.builtinCall? f = some (dest, b, args)) :
    m.fetch f = (m.push (.call f dest)).callBuiltin b args := by
  obtain ⟨u, i, name, hu, hi, hop, rfl, hn, ha, hf, hb⟩ := instruction_of_builtinCall? h
  simp only [fetch, hu, hi, execute?, hop, withSymbol, hn, ha, callByName, hf, hb,
    Option.getD_some]

/-! ### The kinds of steps -/

def Executes (m : Machine) (f : Frame) (m? : Option Machine) : Prop :=
  ∀ m' ∈ m?, Executed m f m'

theorem Executes.getD {m? : Option Machine} (h : Executes m f m?)
    (hnone : m? = none → ∃ i, m.host.instruction? f = some i ∧ ¬ i.RegistersValid) :
    Executed m f (m?.getD { m with control := .stuck }) := by
  cases m? with
  | none => exact .stuck (hnone rfl)
  | some m' => exact h m' rfl

theorem executes_execute? (hu : m.host.units[f.unit]? = some u)
    (hi : u.instructions[f.position]? = some i) (h : m.builtinCall? f = none) :
    Executes m f (m.execute? f u i) := by
  have hparts : Parts (fun m' _ => Executed m f m') m m f f u u i := {
    goesOn := fun hs registers _ => by
      cases hs with
      | nothing => exact .goesOn hu .none rfl rfl rfl
      | string text => exact .goesOn hu (.string text) rfl rfl rfl
      | global name value => exact .goesOn hu (.global name value) rfl rfl rfl
    jumps := fun _ _ => .goesOn hu .none rfl rfl rfl
    binds := fun _ _ ho => .goesOn hu (.function _ (List.mem_of_getElem? ho)) rfl rfl rfl
    calls := fun {name args} hop hn ha => by
      unfold callByName
      cases hf : m.host.functions.get? name with
      | some unit =>
        exact .calls _ _ hf ⟨i, Host.instruction?_eq_some_iff.2 ⟨u, hu, hi⟩, rfl⟩
      | none =>
        rw [builtinCall?_of_instruction hu hi hop hn ha hf, Option.map_eq_none_iff] at h
        rw [h]
        exact .raises rfl
    raises := fun he => by cases he <;> exact .raises rfl
    returns := fun value _ => .returns value
    halts := fun _ => .halts }
  exact hparts.forall_mem

/-- An instruction that names registers which exist can be executed. -/
theorem isSome_execute? (m : Machine) (f : Frame) (u : CodeUnit) (hi : i.RegistersValid) :
    (m.execute? f u i).isSome = true := by
  obtain ⟨hdest, hsrc1, hsrc2⟩ := hi
  have hassign : ∀ (m : Machine) (value : Value), (m.assign? f i.dest value).isSome = true := by
    intro m value
    obtain ⟨f', hf'⟩ := f.exists_write? hdest value
    rw [assign?, hf']
    rfl
  have hread : ∀ {r : UInt8} {run : Value → Option Machine}, r < 32 →
      (∀ value, (run value).isSome = true) → ((f.read? r).bind run).isSome = true := by
    intro r run hr hrun
    obtain ⟨value, hvalue⟩ := f.exists_read? hr
    rw [hvalue]
    exact hrun value
  have hsymbol : ∀ {run : String → Option Machine}, (∀ symbol, (run symbol).isSome = true) →
      (m.withSymbol f u i run).isSome = true := by
    intro run hrun
    unfold withSymbol
    cases u.symbol? i.imm with
    | some symbol => exact hrun symbol
    | none => rfl
  unfold execute?
  cases i.opcode with
  | nop | halt | jump => rfl
  | loadInt | loadNil | loadBool | loadSelf => exact hassign m _
  | mov => exact hread hsrc1 (hassign m)
  | jumpIf | jumpUnless | raise | ret => exact hread hsrc1 fun _ => rfl
  | loadStr => exact hsymbol fun _ => hassign _ _
  | getGlobal => exact hsymbol fun _ => hassign m _
  | setGlobal => exact hsymbol fun _ => hread hsrc1 fun _ => rfl
  | arith =>
    dsimp only
    cases ArithOp.ofCode? i.mode with
    | none => rfl
    | some op =>
      refine hread hsrc1 fun a => hread hsrc2 fun b => ?_
      cases op.result? a b with
      | some value => exact hassign m value
      | none => rfl
  | call =>
    refine hsymbol fun _ => ?_
    dsimp only
    cases f.window? i.src1.toNat i.mode.toNat <;> rfl
  | define =>
    refine hsymbol fun _ => ?_
    cases u.children[i.mode.toNat]? <;> rfl

/-- A step of a running frame that calls no builtin is one of the kinds. -/
theorem fetch_executed (h : m.builtinCall? f = none) : Executed m f (m.fetch f) := by
  unfold fetch
  cases hu : m.host.units[f.unit]? with
  | none => exact .lost hu
  | some u =>
    dsimp only
    cases hi : u.instructions[f.position]? with
    | none => exact .returns .nil
    | some i =>
      refine (executes_execute? hu hi h).getD fun hnone => ?_
      refine ⟨i, Host.instruction?_eq_some_iff.2 ⟨u, hu, hi⟩, fun hvalid => ?_⟩
      have hsome := isSome_execute? m f u hvalid
      rw [hnone] at hsome
      cases hsome

end

end Machine

end ModuleHost
