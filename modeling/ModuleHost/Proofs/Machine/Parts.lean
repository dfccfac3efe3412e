import ModuleHost.Machine.Session
import ModuleHost.Proofs.Assembly.Operations
import Mathlib.Data.Option.Defs

/-!
# What instructions are made of

The eighteen operations read registers and symbols, and then the frame does one of a few things: it
goes on, jumps, binds a name, calls one, raises, ends or halts.  Where two machines come to related
ones by each of these, they come to related ones by every instruction (`Parts.execute?`), and where
all of these come to machines with a property, so does every instruction (`Parts.forall_mem`).
Whatever is shown of all instructions is shown of these parts, and only here are the operations
taken one by one.
-/

namespace ModuleHost

inductive Host.Stores : (Host → Host) → Prop
  | nothing : Stores id
  | string (text : String) : Stores fun h => h.pushArena [.str text]
  | global (name : String) (value : Value) : Stores fun h => h.setGlobal name value

inductive Exception.OfInstruction : Exception → Prop
  | runtime (message : String) : OfInstruction (runtimeError message)
  | type (message : String) : OfInstruction (typeError message)

namespace Machine

/-- Two machines, in each of which a frame executes the instruction `i`, read the same and come to
related machines by whatever the instruction can be made of. -/
structure Parts (R : Machine → Machine → Prop) (m m' : Machine) (f f' : Frame) (u u' : CodeUnit)
    (i : Instruction) : Prop where
  registers : f'.registers = f.registers := by rfl
  receiver : f'.receiver = f.receiver := by rfl
  symbol : u'.symbol? i.imm = u.symbol? i.imm := by rfl
  children : u'.children = u.children := by rfl
  globals : m'.host.globals = m.host.globals := by rfl
  goesOn : ∀ {store : Host → Host}, Host.Stores store → ∀ registers : Registers,
    i.opcode ≠ .halt →
    R ({ m with host := store m.host }.continueWith { f with registers }.advance)
      ({ m' with host := store m'.host }.continueWith { f' with registers }.advance)
  jumps : i.opcode.jumps = true → 0 ≤ i.imm.toInt →
    R (m.continueWith (f.jumpTo i.imm.toInt.toNat)) (m'.continueWith (f'.jumpTo i.imm.toInt.toNat))
  binds : ∀ {name : String} {offset : UInt32}, i.opcode = .define → u.symbol? i.imm = some name →
    u.children[i.mode.toNat]? = some offset →
    R ({ m with host := m.host.defineFunction name (f.unit + offset.toNat) }.continueWith f.advance)
      ({ m' with host := m'.host.defineFunction name (f'.unit + offset.toNat) }.continueWith
        f'.advance)
  calls : ∀ {name : String} {args : List Value}, i.opcode = .call → u.symbol? i.imm = some name →
    f.window? i.src1.toNat i.mode.toNat = some args →
    R (m.callByName f i.dest name args) (m'.callByName f' i.dest name args)
  raises : ∀ {e : Exception}, e.OfInstruction → R (m.raiseIn f e) (m'.raiseIn f' e)
  returns : ∀ value, i.opcode = .ret → R (m.returnFrom value) (m'.returnFrom value)
  halts : i.opcode = .halt →
    R ({ m with host := { m.host with halted := true } }.returnFrom .nil)
      ({ m' with host := { m'.host with halted := true } }.returnFrom .nil)

namespace Parts

variable {R : Machine → Machine → Prop} {m m' : Machine} {f f' : Frame} {u u' : CodeUnit}
  {i : Instruction}

/-- The frame goes on with the registers that it has. -/
theorem stores (h : Parts R m m' f f' u u' i) {store : Host → Host} (hs : Host.Stores store)
    (hop : i.opcode ≠ .halt) :
    R ({ m with host := store m.host }.continueWith f.advance)
      ({ m' with host := store m'.host }.continueWith f'.advance) := by
  have hsame : { f' with registers := f.registers } = f' := by rw [← h.registers]
  have hgoes := h.goesOn hs f.registers hop
  rwa [hsame] at hgoes

theorem advances (h : Parts R m m' f f' u u' i) (hop : i.opcode ≠ .halt) :
    R (m.continueWith f.advance) (m'.continueWith f'.advance) := h.stores .nothing hop

theorem assign? (h : Parts R m m' f f' u u' i) {store : Host → Host} (hs : Host.Stores store)
    (hop : i.opcode ≠ .halt) (value : Value) :
    Option.Rel R ({ m with host := store m.host }.assign? f i.dest value)
      ({ m' with host := store m'.host }.assign? f' i.dest value) := by
  unfold Machine.assign? Frame.write?
  rw [h.registers]
  split
  · exact .some (h.goesOn hs _ hop)
  · exact .none

theorem jump (h : Parts R m m' f f' u u' i) (hop : i.opcode.jumps = true) :
    R (m.jump f i.imm) (m'.jump f' i.imm) := by
  unfold Machine.jump
  split
  · exact h.raises (.runtime _)
  · next hnot =>
    refine h.jumps hop (Int.not_lt.1 fun hlt => hnot ?_)
    rwa [Int32.lt_iff_toInt_lt]

theorem read? (h : Parts R m m' f f' u u' i) (r : UInt8) {run run' : Value → Option Machine}
    (hr : ∀ value, Option.Rel R (run value) (run' value)) :
    Option.Rel R ((f.read? r).bind run) ((f'.read? r).bind run') := by
  rw [Frame.read?, Frame.read?, h.registers]
  cases f.registers[r.toNat]? with
  | none => exact .none
  | some value => exact hr value

theorem window? (h : Parts R m m' f f' u u' i) (first count : Nat) :
    f'.window? first count = f.window? first count := by
  rw [Frame.window?, Frame.window?, h.registers]

theorem withSymbol (h : Parts R m m' f f' u u' i) {run run' : String → Option Machine}
    (hr : ∀ name, u.symbol? i.imm = some name → Option.Rel R (run name) (run' name)) :
    Option.Rel R (m.withSymbol f u i run) (m'.withSymbol f' u' i run') := by
  unfold Machine.withSymbol
  rw [h.symbol]
  cases hn : u.symbol? i.imm with
  | some name => exact hr name hn
  | none => exact .some (h.raises (.runtime _))

/-- An instruction is executed alike where its parts are. -/
theorem execute? (h : Parts R m m' f f' u u' i) :
    Option.Rel R (m.execute? f u i) (m'.execute? f' u' i) := by
  by_cases hhalt : i.opcode = .halt
  · simp only [Machine.execute?, hhalt]
    exact .some (h.halts hhalt)
  have hassign := h.assign? .nothing hhalt
  unfold Machine.execute?
  cases hop : i.opcode with
  | halt => exact absurd hop hhalt
  | nop => exact .some (h.advances hhalt)
  | loadInt | loadNil | loadBool => exact hassign _
  | loadSelf =>
    rw [h.receiver]
    exact hassign _
  | mov => exact h.read? i.src1 hassign
  | raise => exact h.read? i.src1 fun value => .some (h.raises (.runtime _))
  | ret => exact h.read? i.src1 fun value => .some (h.returns value hop)
  | loadStr => exact h.withSymbol fun text _ => h.assign? (.string text) hhalt _
  | getGlobal =>
    rw [h.globals]
    exact h.withSymbol fun name _ => hassign _
  | setGlobal =>
    exact h.withSymbol fun name _ => h.read? i.src1 fun value =>
      .some (h.stores (.global name value) hhalt)
  | arith =>
    dsimp only
    cases ArithOp.ofCode? i.mode with
    | none => exact .some (h.raises (.runtime _))
    | some op =>
      refine h.read? i.src1 fun a => h.read? i.src2 fun b => ?_
      cases op.result? a b with
      | some value => exact hassign value
      | none => exact .some (h.raises (.type _))
  | call =>
    refine h.withSymbol fun name hn => ?_
    dsimp only
    rw [h.window?]
    cases ha : f.window? i.src1.toNat i.mode.toNat with
    | some args => exact .some (h.calls hop hn ha)
    | none => exact .some (h.raises (.runtime _))
  | define =>
    refine h.withSymbol fun name hn => ?_
    rw [h.children]
    cases ho : u.children[i.mode.toNat]? with
    | some offset => exact .some (h.binds hop hn ho)
    | none => exact .some (h.raises (.runtime _))
  | jump => exact .some (h.jump (by rw [hop]; rfl))
  | jumpIf =>
    refine h.read? i.src1 fun value => .some ?_
    split
    · exact h.jump (by rw [hop]; rfl)
    · exact h.advances hhalt
  | jumpUnless =>
    refine h.read? i.src1 fun value => .some ?_
    split
    · exact h.advances hhalt
    · exact h.jump (by rw [hop]; rfl)

/-- A property of one machine is a relation that does not look at the other one. -/
theorem forall_mem {P : Machine → Prop} (h : Parts (fun x _ => P x) m m f f u u i) :
    ∀ x ∈ m.execute? f u i, P x := by
  intro x hx
  have hrel := h.execute?
  rw [hx] at hrel
  cases hrel with
  | some hp => exact hp

end Parts

end Machine

end ModuleHost
