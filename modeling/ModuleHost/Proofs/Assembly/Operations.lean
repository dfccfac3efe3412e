import ModuleHost.Proofs.Assembly.Spelling

/-!
# What the operations of a source are like

Whatever operation a line says, it could have been spelled as `Code` is (`exists_code_of_ofLine`).
So it has registers that exist, a window of arguments that fits, an arithmetic operation that there
is, and a reference of the kind that its instruction needs (`valid_of_ofLine`).  The outline of a
source consists of such operations and of definitions of functions that come later
(`Outline.Proper`).
-/

namespace ModuleHost

def Opcode.jumps : Opcode → Bool
  | jump | jumpIf | jumpUnless => true
  | _ => false

namespace Assembly

structure Operation.Valid (op : Operation) : Prop where
  registers : op.instruction.RegistersValid
  symbol : op.instruction.opcode.hasSymbolOperand = true → ∃ text, op.reference = .symbol text
  label : op.instruction.opcode.jumps = true → ∃ name, op.reference = .label name
  arith : op.instruction.opcode = .arith → (ArithOp.ofCode? op.instruction.mode).isSome = true
  window : op.instruction.opcode = .call →
    op.instruction.src1.toNat + op.instruction.mode.toNat ≤ registerCount
  notDefinition : op.instruction.opcode ≠ .define

variable {operand word line : List Char} {operands : List (List Char)} {op : Operation}

/-! ### Reading operands -/

theorem bind_eq_ok {α β : Type} {x : Except Fault α} {f : α → Except Fault β} {b : β}
    (h : (x >>= f) = .ok b) : ∃ a, x = .ok a ∧ f a = .ok b := by
  cases x with
  | error e => cases h
  | ok a => exact ⟨a, rfl, h⟩

theorem exists_of_register {r : UInt8} (h : register operand = .ok r) :
    ∃ reg : Register, r = reg.number := by
  unfold register at h
  dsimp only at h
  split at h
  · next n _ =>
    split at h
    · next hn =>
      cases h
      exact ⟨⟨n, hn⟩, rfl⟩
    · cases h
  · cases h

theorem exists_of_name {text : String} (h : name operand = .ok text) :
    ∃ n : Name, text = n.text := by
  by_cases hname : isName operand = true
  · rw [name_eq_ok hname] at h
    cases h
    exact ⟨⟨String.ofList operand, by rwa [String.toList_ofList]⟩, rfl⟩
  · rw [name_eq_error hname] at h
    cases h

theorem truthValue_cases {imm : Int32} (h : truthValue operand = .ok imm) : imm = 0 ∨ imm = 1 := by
  unfold truthValue at h
  split at h
  · cases h
    exact Or.inr rfl
  · split at h
    · cases h
      exact Or.inl rfl
    · cases h

/-- An operand that is read as something. -/
theorem bind_operand {α β : Type} {k : Nat} {read : List Char → Except Fault β}
    {f : β → Except Fault α} {a : α}
    (h : (operandAt operands k >>= fun operand => read operand >>= f) = .ok a) :
    ∃ operand b, read operand = .ok b ∧ f b = .ok a := by
  obtain ⟨operand, -, h⟩ := bind_eq_ok h
  obtain ⟨b, hread, h⟩ := bind_eq_ok h
  exact ⟨operand, b, hread, h⟩

theorem bind_register {α : Type} {k : Nat} {f : UInt8 → Except Fault α} {a : α}
    (h : (operandAt operands k >>= fun operand => register operand >>= f) = .ok a) :
    ∃ reg : Register, f reg.number = .ok a := by
  obtain ⟨operand, r, hread, h⟩ := bind_operand h
  obtain ⟨reg, rfl⟩ := exists_of_register hread
  exact ⟨reg, h⟩

theorem bind_name {α : Type} {k : Nat} {f : String → Except Fault α} {a : α}
    (h : (operandAt operands k >>= fun operand => name operand >>= f) = .ok a) :
    ∃ n : Name, f n.text = .ok a := by
  obtain ⟨operand, text, hread, h⟩ := bind_operand h
  obtain ⟨n, rfl⟩ := exists_of_name hread
  exact ⟨n, h⟩

/-! ### What a line can say -/

theorem exists_code_of_callOperation (h : callOperation operands = .ok op) :
    ∃ c : Code, op = c.operation := by
  obtain ⟨dest, h⟩ := bind_register h
  obtain ⟨function, h⟩ := bind_name h
  obtain ⟨first?, hfirst, h⟩ := bind_eq_ok h
  cases htwo : operands[2]? with
  | none =>
    have hthree : operands[3]? = none :=
      List.getElem?_eq_none (Nat.le_succ_of_le (List.getElem?_eq_none_iff.1 htwo))
    rw [htwo] at hfirst
    cases hfirst
    rw [hthree] at h
    cases h
    exact ⟨.call dest function .none, rfl⟩
  | some operand =>
    rw [htwo, Option.mapM_some] at hfirst
    obtain ⟨r, hregister, hfirst⟩ := bind_eq_ok hfirst
    obtain ⟨first, rfl⟩ := exists_of_register hregister
    cases hfirst
    have hcall : ∀ count : UInt8, (if first.number.toNat + count.toNat > registerCount
        then .error (.argumentsOutOfRange first.number.toNat count.toNat)
        else Except.ok {
          instruction := { opcode := .call, dest := dest.number, src1 := first.number, mode := count }
          reference := .symbol function.text } : Except Fault Operation) = .ok op →
        ∃ fits : first.val + count.toNat ≤ registerCount,
          op = (Code.call dest function (.many first count.toNat fits)).operation := by
      intro count h
      split at h
      · cases h
      · next hfits =>
        rw [toNat_number] at hfits
        refine ⟨Nat.not_lt.1 hfits, ?_⟩
        rw [Code.operation, Window.count, UInt8.ofNat_toNat]
        exact (Except.ok.inj h).symm
    split at h
    · obtain ⟨count, -, h⟩ := bind_eq_ok h
      obtain ⟨_, hop⟩ := hcall count h
      exact ⟨_, hop⟩
    · obtain ⟨_, hop⟩ := hcall _ h
      exact ⟨_, hop⟩

/-- What is read from the operands of a mnemonic could have been spelled. -/
theorem exists_code_of_operationOf {m : Mnemonic} (hm : m ∈ Mnemonic.all)
    (h : operationOf m operands = .ok op) : ∃ c : Code, op = c.operation := by
  cases m with
  | arith a =>
    obtain ⟨dest, h⟩ := bind_register h
    obtain ⟨left, h⟩ := bind_register h
    obtain ⟨right, h⟩ := bind_register h
    cases h
    exact ⟨.arith a dest left right, rfl⟩
  | plain opcode =>
    cases opcode with
    | define | arith => exact absurd hm (by decide)
    | call => exact exists_code_of_callOperation h
    | nop =>
      cases h
      exact ⟨.nop, rfl⟩
    | halt =>
      cases h
      exact ⟨.halt, rfl⟩
    | mov =>
      obtain ⟨dest, h⟩ := bind_register h
      obtain ⟨src, h⟩ := bind_register h
      cases h
      exact ⟨.mov dest src, rfl⟩
    | loadInt =>
      obtain ⟨dest, h⟩ := bind_register h
      obtain ⟨operand, imm, -, h⟩ := bind_operand h
      cases h
      exact ⟨.loadInt dest imm, rfl⟩
    | loadBool =>
      obtain ⟨dest, h⟩ := bind_register h
      obtain ⟨operand, imm, himm, h⟩ := bind_operand h
      cases h
      rcases truthValue_cases himm with rfl | rfl
      · exact ⟨.loadBool dest false, rfl⟩
      · exact ⟨.loadBool dest true, rfl⟩
    | loadNil =>
      obtain ⟨dest, h⟩ := bind_register h
      cases h
      exact ⟨.loadNil dest, rfl⟩
    | loadSelf =>
      obtain ⟨dest, h⟩ := bind_register h
      cases h
      exact ⟨.loadSelf dest, rfl⟩
    | loadStr =>
      obtain ⟨dest, h⟩ := bind_register h
      obtain ⟨operand, text, -, h⟩ := bind_operand h
      cases h
      exact ⟨.loadStr dest text, rfl⟩
    | getGlobal =>
      obtain ⟨dest, h⟩ := bind_register h
      obtain ⟨global, h⟩ := bind_name h
      cases h
      exact ⟨.getGlobal dest global, rfl⟩
    | setGlobal =>
      obtain ⟨global, h⟩ := bind_name h
      obtain ⟨src, h⟩ := bind_register h
      cases h
      exact ⟨.setGlobal global src, rfl⟩
    | jump =>
      obtain ⟨label, h⟩ := bind_name h
      cases h
      exact ⟨.jump label, rfl⟩
    | jumpIf =>
      obtain ⟨src, h⟩ := bind_register h
      obtain ⟨label, h⟩ := bind_name h
      cases h
      exact ⟨.jumpIf src label, rfl⟩
    | jumpUnless =>
      obtain ⟨src, h⟩ := bind_register h
      obtain ⟨label, h⟩ := bind_name h
      cases h
      exact ⟨.jumpUnless src label, rfl⟩
    | raise =>
      obtain ⟨src, h⟩ := bind_register h
      cases h
      exact ⟨.raise src, rfl⟩
    | ret =>
      unfold operationOf at h
      dsimp only at h
      cases hhead : operands.head? with
      | none =>
        rw [hhead] at h
        cases h
        exact ⟨.ret none, rfl⟩
      | some operand =>
        rw [hhead] at h
        obtain ⟨r, hregister, h⟩ := bind_eq_ok h
        obtain ⟨src, rfl⟩ := exists_of_register hregister
        cases h
        exact ⟨.ret (some src), rfl⟩

theorem exists_code_of_operationOfLine (h : operationOfLine line = .ok op) :
    ∃ c : Code, op = c.operation := by
  unfold operationOfLine at h
  dsimp only at h
  obtain ⟨operands, -, h⟩ := bind_eq_ok h
  split at h
  · next m hm => exact exists_code_of_operationOf (List.mem_of_find?_eq_some hm) h
  · cases h

/-- The operation that a line says could have been spelled. -/
theorem exists_code_of_ofLine (h : Statement.ofLine line = .ok (.operation op)) :
    ∃ c : Code, op = c.operation := by
  unfold Statement.ofLine Statement.ofTrimmed at h
  split at h
  · cases h
  · split at h
    · cases h
    · cases h
    · cases h
  · split at h
    · cases h
    · cases ho : operationOfLine (Text.trim (beforeComment .outside line)) with
      | error e =>
        rw [ho] at h
        cases h
      | ok op' =>
        rw [ho] at h
        cases h
        exact exists_code_of_operationOfLine ho

/-- The registers of a spelled instruction exist, its window fits, and its reference is of the kind
that it needs. -/
theorem Code.valid (c : Code) : c.operation.Valid := by
  have hnumber : ∀ reg : Register, reg.number < 32 := by decide
  have hzero : (0 : UInt8) < 32 := by decide
  cases c with
  | nop | halt => exact ⟨⟨hzero, hzero, hzero⟩, nofun, nofun, nofun, nofun, nofun⟩
  | mov dest src =>
    exact ⟨⟨hnumber dest, hnumber src, hzero⟩, nofun, nofun, nofun, nofun, nofun⟩
  | loadInt dest | loadNil dest | loadSelf dest | loadBool dest =>
    exact ⟨⟨hnumber dest, hzero, hzero⟩, nofun, nofun, nofun, nofun, nofun⟩
  | loadStr dest text =>
    exact ⟨⟨hnumber dest, hzero, hzero⟩, fun _ => ⟨text, rfl⟩, nofun, nofun, nofun, nofun⟩
  | getGlobal dest global =>
    exact ⟨⟨hnumber dest, hzero, hzero⟩, fun _ => ⟨global.text, rfl⟩, nofun, nofun, nofun, nofun⟩
  | setGlobal global src =>
    exact ⟨⟨hzero, hnumber src, hzero⟩, fun _ => ⟨global.text, rfl⟩, nofun, nofun, nofun, nofun⟩
  | arith op dest left right =>
    refine ⟨⟨hnumber dest, hnumber left, hnumber right⟩, nofun, nofun, fun _ => ?_, nofun, nofun⟩
    rw [operation, ArithOp.ofCode?_code]
    rfl
  | call dest function window =>
    have hfirst : window.first < 32 := by
      cases window with
      | none => exact hzero
      | one first | many first => exact hnumber first
    exact ⟨⟨hnumber dest, hfirst, hzero⟩, fun _ => ⟨function.text, rfl⟩, nofun, nofun,
      fun _ => window.first_add_count_le, nofun⟩
  | jump label =>
    exact ⟨⟨hzero, hzero, hzero⟩, nofun, fun _ => ⟨label.text, rfl⟩, nofun, nofun, nofun⟩
  | jumpIf src label | jumpUnless src label =>
    exact ⟨⟨hzero, hnumber src, hzero⟩, nofun, fun _ => ⟨label.text, rfl⟩, nofun, nofun, nofun⟩
  | raise src => exact ⟨⟨hzero, hnumber src, hzero⟩, nofun, nofun, nofun, nofun, nofun⟩
  | ret src =>
    have hsrc : (src.map Register.number).getD 0 < 32 := by
      cases src with
      | none => exact hzero
      | some src => exact hnumber src
    exact ⟨⟨hzero, hsrc, hzero⟩, nofun, nofun, nofun, nofun, nofun⟩

def Statement.Valid : Statement → Prop
  | .operation op => op.Valid
  | _ => True

theorem valid_of_ofLine {s : Statement} (h : Statement.ofLine line = .ok s) : s.Valid := by
  cases s with
  | operation op =>
    obtain ⟨c, rfl⟩ := exists_code_of_ofLine h
    exact c.valid
  | blank | functionStart | functionEnd | label => trivial

/-! ### Outlines -/

def Item.Valid : Item → Prop
  | .label _ => True
  | .operation op => op.Valid

def Outline.blocks (o : Outline) : List Block := o.functions ++ o.current.toList

theorem Outline.blocks_functionEnd (o : Outline) (line : Nat) :
    (o.statement line .functionEnd).blocks = o.blocks :=
  List.append_nil (o.functions ++ o.current.toList)

theorem Outline.Complete.blocks {o : Outline} (h : o.Complete) : o.blocks = o.functions := by
  rw [Outline.blocks, h.current]
  exact List.append_nil _

/-- The items of an outline are what lines say and, at the top level, definitions of its functions;
no unit has more items than there are statements. -/
structure Outline.Proper (o : Outline) (count : Nat) : Prop where
  top : ∀ item ∈ o.top, item.1.Valid
    ∨ ∃ child < o.blocks.length, ∃ name, item.1 = .operation (bindingOf child name)
  functions : ∀ b ∈ o.blocks, ∀ item ∈ b.items, item.1.Valid
  few : o.blocks.length ≤ 256
  topLength : o.top.length ≤ count
  lengths : ∀ b ∈ o.blocks, b.items.length ≤ count

namespace Outline.Proper

variable {o : Outline} {count : Nat} {s : Statement}

theorem mono (h : o.Proper count) {count' : Nat} (hle : count ≤ count') : o.Proper count' where
  top := h.top
  functions := h.functions
  few := h.few
  topLength := Nat.le_trans h.topLength hle
  lengths b hb := Nat.le_trans (h.lengths b hb) hle

theorem add (h : o.Proper count) {item : Item} (hitem : item.Valid) (line : Nat) :
    (o.add item line).Proper (count + 1) := by
  obtain ⟨top, functions, current⟩ := o
  cases current with
  | none =>
    refine ⟨fun i hi => ?_, h.functions, h.few, ?_, (h.mono (Nat.le_succ count)).lengths⟩
    · rcases List.mem_append.1 hi with hi | hi
      · exact h.top i hi
      · rw [List.mem_singleton.1 hi]
        exact Or.inl hitem
    · show (top ++ [(item, line)]).length ≤ count + 1
      rw [List.length_append]
      exact Nat.succ_le_succ h.topLength
  | some b =>
    have hb : b ∈ blocks { top, functions, current := some b } :=
      List.mem_append_right functions List.mem_cons_self
    -- a function that has started is one of those before, or the one that has got the item
    have hblocks : ∀ b' ∈ blocks (Outline.add { top, functions, current := some b } item line),
        b' ∈ blocks { top, functions, current := some b }
          ∨ b'.items = b.items ++ [(item, line)] := by
      intro b' hb'
      rcases List.mem_append.1 hb' with hb' | hb'
      · exact Or.inl (List.mem_append_left _ hb')
      · rw [List.mem_singleton.1 hb']
        exact Or.inr rfl
    have hlength : (blocks (Outline.add { top, functions, current := some b } item line)).length
        = (blocks { top, functions, current := some b }).length := by
      show (functions ++ _).length = (functions ++ [b]).length
      rw [List.length_append, List.length_append]
      rfl
    refine ⟨?_, fun b' hb' i hi => ?_, ?_, Nat.le_succ_of_le h.topLength, fun b' hb' => ?_⟩
    · rw [hlength]
      exact h.top
    · rcases hblocks b' hb' with hb' | heq
      · exact h.functions b' hb' i hi
      · rw [heq] at hi
        rcases List.mem_append.1 hi with hi | hi
        · exact h.functions b hb i hi
        · rw [List.mem_singleton.1 hi]
          exact hitem
    · rw [hlength]
      exact h.few
    · rcases hblocks b' hb' with hb' | heq
      · exact Nat.le_succ_of_le (h.lengths b' hb')
      · rw [heq, List.length_append]
        exact Nat.succ_le_succ (h.lengths b hb)

/-- A function that starts has the next number, and the definition at the top level has it too. -/
theorem functionStart (h : o.Proper count) (hcurrent : o.current = none)
    (hfew : o.functions.length < 256) (word? : Option (List Char)) (line : Nat) :
    (o.statement line (.functionStart word?)).Proper (count + 1) := by
  obtain ⟨top, functions, current⟩ := o
  obtain rfl : current = none := hcurrent
  have hold : ∀ b, b ∈ functions → b ∈ blocks { top, functions } := fun b hb =>
    List.mem_append_left _ hb
  have hlength : (functions ++ [({ name := String.ofList (word?.getD []) } : Block)]).length
      = functions.length + 1 := List.length_append
  have hbefore : (blocks { top, functions }).length = functions.length :=
    congrArg List.length (List.append_nil functions)
  refine ⟨fun i hi => ?_, fun b hb i hi => ?_, ?_, ?_, fun b hb => ?_⟩
  · rcases List.mem_append.1 hi with hi | hi
    · rcases h.top i hi with hvalid | ⟨child, hchild, name, heq⟩
      · exact Or.inl hvalid
      · refine Or.inr ⟨child, ?_, name, heq⟩
        rw [hbefore] at hchild
        exact Nat.lt_of_lt_of_eq (Nat.lt_succ_of_lt hchild) hlength.symm
    · rw [List.mem_singleton.1 hi]
      exact Or.inr ⟨functions.length, Nat.lt_of_lt_of_eq (Nat.lt_succ_self _) hlength.symm, _, rfl⟩
  · rcases List.mem_append.1 hb with hb | hb
    · exact h.functions b (hold b hb) i hi
    · rw [List.mem_singleton.1 hb] at hi
      cases hi
  · exact Nat.le_trans (Nat.le_of_eq hlength) hfew
  · show (top ++ [_]).length ≤ count + 1
    rw [List.length_append]
    exact Nat.succ_le_succ h.topLength
  · rcases List.mem_append.1 hb with hb | hb
    · exact Nat.le_succ_of_le (h.lengths b (hold b hb))
    · rw [List.mem_singleton.1 hb]
      exact Nat.zero_le _

theorem functionEnd (h : o.Proper count) (line : Nat) :
    (o.statement line .functionEnd).Proper count := by
  have hblocks := o.blocks_functionEnd line
  constructor
  · rw [hblocks]
    exact h.top
  · rw [hblocks]
    exact h.functions
  · rw [hblocks]
    exact h.few
  · exact h.topLength
  · rw [hblocks]
    exact h.lengths

theorem statement (h : o.Proper count) (ha : o.Accepts s) (hs : s.Valid) (line : Nat) :
    (o.statement line s).Proper (count + if s = .blank then 0 else 1) := by
  cases s with
  | blank => exact h
  | functionStart word? =>
    obtain ⟨hcurrent, hfew, -⟩ := ha
    exact h.functionStart hcurrent hfew word? line
  | functionEnd => exact (h.functionEnd line).mono (Nat.le_succ count)
  | label name =>
    have hitem : (Item.label name).Valid := trivial
    exact h.add hitem line
  | operation op =>
    have hitem : (Item.operation op).Valid := hs
    exact h.add hitem line

theorem statements {ss : List Statement} {line : Nat} (h : o.Proper count)
    (ha : o.AcceptsAll line ss) (hs : ∀ s ∈ ss, s.Valid) :
    (o.statements line ss).Proper (count + ss.countP (· ≠ .blank)) := by
  induction ss generalizing o line count with
  | nil => exact h
  | cons s ss ih =>
    have hnext := ih (h.statement ha.1 (hs s List.mem_cons_self) line) ha.2
      fun s' hs' => hs s' (List.mem_cons_of_mem s hs')
    rw [List.countP_cons]
    refine hnext.mono (Nat.le_of_eq ?_)
    by_cases hblank : s = .blank
    · simp [hblank]
    · simp [hblank]
      omega

end Outline.Proper

theorem Outline.proper_start : Outline.Proper {} 0 where
  top := nofun
  functions := nofun
  few := Nat.zero_le 256
  topLength := Nat.le_refl 0
  lengths := nofun

/-- How many statements a source has; a line without a statement does not count. -/
def statementCount (source : String) : Nat :=
  (Text.lines source.toList).countP fun line => Statement.ofLine line ≠ .ok .blank

theorem countP_of_mapM {lines : List (List Char)} {ss : List Statement}
    (h : lines.mapM Statement.ofLine = .ok ss) :
    ss.countP (· ≠ .blank) = lines.countP fun line => Statement.ofLine line ≠ .ok .blank := by
  induction lines generalizing ss with
  | nil =>
    cases h
    rfl
  | cons line lines ih =>
    obtain ⟨s, rest, hs, hrest, rfl⟩ := mapM_cons_eq_ok h
    rw [List.countP_cons, List.countP_cons, ih hrest, hs]
    simp

theorem valid_of_mapM {lines : List (List Char)} {ss : List Statement}
    (h : lines.mapM Statement.ofLine = .ok ss) : ∀ s ∈ ss, s.Valid := by
  induction lines generalizing ss with
  | nil =>
    cases h
    exact nofun
  | cons line lines ih =>
    obtain ⟨s, rest, hs, hrest, rfl⟩ := mapM_cons_eq_ok h
    intro s' hs'
    rcases List.mem_cons.1 hs' with rfl | hs'
    · exact valid_of_ofLine hs
    · exact ih hrest s' hs'

/-- The outline of a source is made of what its lines say. -/
theorem WellFormed.proper {source : String} {ss : List Statement} (h : WellFormed source ss) :
    (Outline.statements {} 1 ss).Proper (statementCount source) := by
  have hproper := Outline.proper_start.statements h.accepted (valid_of_mapM h.lines)
  rw [Nat.zero_add, countP_of_mapM h.lines] at hproper
  exact hproper

end Assembly

end ModuleHost
