import ModuleHost.Proofs.Assembly.Operations
import ModuleHost.Proofs.Bytecode.RoundTrip
import ModuleHost.Proofs.Machine.Dispatched

/-!
# Sound units

The machine asks something of every instruction that it executes: that its symbol, its child, its
arithmetic operation, its window of arguments or its target is there.  A unit is sound if all its
instructions can be executed in this sense, and a table of units is sound if its units are and have
their children in the table.  What a source is assembled into is sound (`soundTable_of_assemble`),
and remains so when it is written and read back, attributed, finalized and placed behind other
units.
-/

namespace ModuleHost

open Assembly

/-- What the machine asks of the instruction `i` of the unit `u`. -/
structure Instruction.SoundIn (u : CodeUnit) (i : Instruction) : Prop where
  registers : i.RegistersValid
  symbol : i.opcode.hasSymbolOperand = true → (u.symbol? i.imm).isSome = true
  arith : i.opcode = .arith → (ArithOp.ofCode? i.mode).isSome = true
  window : i.opcode = .call → i.src1.toNat + i.mode.toNat ≤ registerCount
  child : i.opcode = .define → i.mode.toNat < u.children.length
  target : i.opcode.jumps = true → 0 ≤ i.imm.toInt

def CodeUnit.Sound (u : CodeUnit) : Prop := ∀ i ∈ u.instructions, i.SoundIn u

def SoundTable (us : List CodeUnit) : Prop :=
  ∀ (k : Nat) (u : CodeUnit), us[k]? = some u → u.Sound ∧ u.ChildrenWithin us.length k

variable {u v : CodeUnit} {us vs : List CodeUnit} {i : Instruction}

/-! ### Changes that keep units sound -/

theorem Instruction.SoundIn.of_tables (h : i.SoundIn u) (hsymbols : v.symbols = u.symbols)
    (hchildren : v.children = u.children) : i.SoundIn v where
  registers := h.registers
  symbol hop := by
    have hsymbol := h.symbol hop
    rw [CodeUnit.symbol?] at hsymbol ⊢
    rw [hsymbols]
    exact hsymbol
  arith := h.arith
  window := h.window
  child hop := hchildren ▸ h.child hop
  target := h.target

/-- An instruction that asks for nothing. -/
theorem Instruction.soundIn_plain {opcode : Opcode} (h : opcode ∈ [.halt, .loadNil, .ret])
    (u : CodeUnit) : Instruction.SoundIn u { opcode } := by
  have hzero : (0 : UInt8) < 32 := by decide
  rcases List.mem_cons.1 h with rfl | h
  · exact ⟨⟨hzero, hzero, hzero⟩, nofun, nofun, nofun, nofun, nofun⟩
  rcases List.mem_cons.1 h with rfl | h
  · exact ⟨⟨hzero, hzero, hzero⟩, nofun, nofun, nofun, nofun, nofun⟩
  · rw [List.mem_singleton.1 h]
    exact ⟨⟨hzero, hzero, hzero⟩, nofun, nofun, nofun, nofun, nofun⟩

theorem CodeUnit.Sound.normal (h : u.Sound) : u.normal.Sound := by
  intro i hi
  obtain ⟨j, hj, rfl⟩ := List.mem_map.1 hi
  rw [Instruction.maskRegisters_of_valid (h j hj).registers]
  exact (h j hj).of_tables rfl rfl

theorem CodeUnit.Sound.attributed (h : u.Sound) (filename : Option String) :
    CodeUnit.Sound { u with filename } := fun i hi => (h i hi).of_tables rfl rfl

/-- The instructions of a finalized unit are its own and those that end it. -/
theorem CodeUnit.mem_finalize (h : i ∈ u.finalize.instructions) :
    i ∈ u.instructions ∨ i = { opcode := .loadNil } ∨ i = { opcode := .ret } := by
  unfold finalize at h
  split at h
  · rcases List.mem_append.1 h with h | h
    · rcases List.mem_append.1 h with h | h
      · exact Or.inl (List.dropLast_subset _ h)
      · exact Or.inr (Or.inl (List.mem_singleton.1 h))
    · exact Or.inr (Or.inr (List.mem_singleton.1 h))
  · exact Or.inl h

theorem CodeUnit.Sound.finalize (h : u.Sound) : u.finalize.Sound := by
  intro i hi
  rcases CodeUnit.mem_finalize hi with hi | rfl | rfl
  · exact (h i hi).of_tables u.symbols_finalize u.children_finalize
  · exact Instruction.soundIn_plain (by decide) _
  · exact Instruction.soundIn_plain (by decide) _

/-! ### Changes that keep tables sound -/

namespace SoundTable

theorem nil : SoundTable [] := nofun

theorem append (h : SoundTable us) (h' : SoundTable vs) : SoundTable (us ++ vs) := by
  intro k u hu
  rw [List.length_append]
  rcases Nat.lt_or_ge k us.length with hk | hk
  · rw [List.getElem?_append_left hk] at hu
    obtain ⟨hsound, hchildren⟩ := h k u hu
    refine ⟨hsound, fun offset ho => ⟨(hchildren offset ho).1, ?_⟩⟩
    exact Nat.lt_of_lt_of_le (hchildren offset ho).2 (Nat.le_add_right _ _)
  · rw [List.getElem?_append_right hk] at hu
    obtain ⟨hsound, hchildren⟩ := h' (k - us.length) u hu
    refine ⟨hsound, fun offset ho => ⟨(hchildren offset ho).1, ?_⟩⟩
    have hlt := (hchildren offset ho).2
    omega

theorem map {f : CodeUnit → CodeUnit} (h : SoundTable us) (hf : ∀ u, u.Sound → (f u).Sound)
    (hc : ∀ u, (f u).children = u.children) : SoundTable (us.map f) := by
  intro k v hv
  rw [List.getElem?_map, Option.map_eq_some_iff] at hv
  obtain ⟨u, hu, rfl⟩ := hv
  obtain ⟨hsound, hchildren⟩ := h k u hu
  rw [List.length_map, CodeUnit.ChildrenWithin, hc]
  exact ⟨hf u hsound, hchildren⟩

theorem normal (h : SoundTable us) : SoundTable (us.map CodeUnit.normal) :=
  h.map (fun _ hu => hu.normal) fun _ => rfl

theorem attributed (h : SoundTable us) (filename : Option String) :
    SoundTable (us.map fun u => { u with filename }) :=
  h.map (fun _ hu => hu.attributed filename) fun _ => rfl

theorem finalized (h : SoundTable us) : SoundTable (us.modifyHead CodeUnit.finalize) := by
  intro k v hv
  rw [List.length_modifyHead]
  cases us with
  | nil => cases hv
  | cons u us =>
    cases k with
    | zero =>
      cases hv
      obtain ⟨hsound, hchildren⟩ := h 0 u rfl
      rw [CodeUnit.ChildrenWithin, u.children_finalize]
      exact ⟨hsound.finalize, hchildren⟩
    | succ k => exact h (k + 1) v hv

theorem placed (h : SoundTable us) (attribution : String) :
    SoundTable (CodeUnit.placed attribution us) := (h.attributed (some attribution)).finalized

/-- A sound group is read back as a sound group. -/
theorem of_read {bytes : List UInt8} (h : SoundTable us) (hne : us ≠ [])
    (hw : Bytecode.write? us = some bytes) (hr : Bytecode.read bytes = .ok vs) :
    vs ≠ [] ∧ SoundTable vs := by
  have hround := Bytecode.read_of_write? hw hne (fun k u hu => (h k u hu).2) []
  rw [List.append_nil, hr] at hround
  rw [Except.ok.inj hround]
  exact ⟨mt List.map_eq_nil_iff.1 hne, h.normal⟩

end SoundTable

/-! ### What a source is assembled into -/

theorem Assembly.Operation.Becomes.eq_imm {symbols : List String} {labels : List (String × Nat)}
    {op : Operation} (h : op.Becomes symbols labels i) :
    ∃ imm, i = { op.instruction with imm } := by
  unfold Operation.Becomes at h
  split at h
  · exact ⟨op.instruction.imm, h⟩
  · obtain ⟨k, -, heq⟩ := h
    exact ⟨_, heq⟩
  · obtain ⟨target, -, heq⟩ := h
    exact ⟨_, heq⟩

/-- An operation of a source becomes an instruction that has what the machine asks of it. -/
theorem soundIn_of_valid {labels : List (String × Nat)} {op : Operation} (hop : op.Valid)
    (hb : op.Becomes u.symbols labels i) (hr : u.Refers labels op i) : i.SoundIn u := by
  obtain ⟨imm, rfl⟩ := hb.eq_imm
  refine ⟨hop.registers, fun hsymbol => ?_, hop.arith, hop.window,
    fun hdefine => absurd hdefine hop.notDefinition, fun hjump => ?_⟩
  · obtain ⟨text, href⟩ := hop.symbol hsymbol
    rw [CodeUnit.Refers, href] at hr
    rw [hr]
    rfl
  · obtain ⟨name, href⟩ := hop.label hjump
    rw [CodeUnit.Refers, href] at hr
    obtain ⟨target, -, heq⟩ := hr
    rw [heq]
    exact Int.natCast_nonneg target

theorem soundIn_of_definition {labels : List (String × Nat)} {child : Nat} {name : String}
    (hchild : child < u.children.length) (hfew : child < 256)
    (hb : (bindingOf child name).Becomes u.symbols labels i)
    (hr : u.Refers labels (bindingOf child name) i) : i.SoundIn u := by
  have hzero : (0 : UInt8) < 32 := by decide
  obtain ⟨imm, rfl⟩ := hb.eq_imm
  refine ⟨⟨hzero, hzero, hzero⟩, fun _ => ?_, nofun, nofun, fun _ => ?_, nofun⟩
  · rw [show u.symbol? imm = some name from hr]
    rfl
  · show (UInt8.ofNat child).toNat < u.children.length
    rw [UInt8.toNat_ofNat_of_lt' hfew]
    exact hchild

theorem exists_of_forall₂ {α β : Type} {R : α → β → Prop} {xs : List α} {ys : List β}
    (h : List.Forall₂ R xs ys) {y : β} (hy : y ∈ ys) : ∃ x ∈ xs, R x y := by
  induction h with
  | nil => cases hy
  | cons hr _ ih =>
    rcases List.mem_cons.1 hy with rfl | hy
    · exact ⟨_, List.mem_cons_self, hr⟩
    · obtain ⟨x, hx, hr'⟩ := ih hy
      exact ⟨x, List.mem_cons_of_mem _ hx, hr'⟩

theorem Assembly.mem_closingOf {function : Option String} {ops : List (Operation × Nat)}
    (h : i ∈ closingOf function ops) :
    ∃ opcode ∈ [Opcode.halt, .loadNil, .ret], i = { opcode } := by
  unfold closingOf at h
  dsimp only at h
  split at h
  · split at h
    · cases h
    · exact ⟨.halt, by decide, List.mem_singleton.1 h⟩
  · split at h
    · cases h
    · rcases List.mem_cons.1 h with rfl | h
      · exact ⟨.loadNil, by decide, rfl⟩
      · exact ⟨.ret, by decide, List.mem_singleton.1 h⟩

/-- The instructions that end a unit refer to nothing. -/
theorem Assembly.plain_of_mem_closingOf {function : Option String} {ops : List (Operation × Nat)}
    (h : i ∈ closingOf function ops) :
    i.RegistersValid ∧ i.opcode ∉ [.call, .define] ∧ i.opcode.hasSymbolOperand = false
      ∧ i.opcode.jumps = false := by
  have hplain : ∀ opcode ∈ [Opcode.halt, .loadNil, .ret],
      opcode ∉ [.call, .define] ∧ opcode.hasSymbolOperand = false ∧ opcode.jumps = false := by
    decide
  have hzero : (0 : UInt8) < 32 := by decide
  obtain ⟨opcode, hopcode, rfl⟩ := mem_closingOf h
  exact ⟨⟨hzero, hzero, hzero⟩, hplain opcode hopcode⟩

theorem getElem?_of_forall₂ {α β : Type} {R : α → β → Prop} {xs : List α} {ys : List β}
    (h : List.Forall₂ R xs ys) {k : Nat} {y : β} (hy : ys[k]? = some y) :
    ∃ x, xs[k]? = some x ∧ R x y := by
  induction h generalizing k with
  | nil => cases hy
  | cons hr _ ih =>
    cases k with
    | zero =>
      cases hy
      exact ⟨_, rfl, hr⟩
    | succ k => exact ih hy

/-- An instruction of a unit is one of its operations, in its place, or one of those that end it. -/
theorem CodeUnit.Holds.instruction_cases {filename : String} {function : Option String}
    {items : List (Item × Nat)} (h : u.Holds filename function items) {position : Nat}
    (hi : u.instructions[position]? = some i) :
    (∃ op, (operationsIn items)[position]? = some op
        ∧ op.1.Becomes u.symbols (labelsIn items) i)
      ∨ i ∈ closingOf function (operationsIn items) := by
  obtain ⟨is, heq, hbecomes⟩ := h.instructions
  rw [heq] at hi
  by_cases hposition : position < is.length
  · rw [List.getElem?_append_left hposition] at hi
    exact Or.inl (getElem?_of_forall₂ hbecomes hi)
  · rw [List.getElem?_append_right (Nat.le_of_not_lt hposition)] at hi
    exact Or.inr (List.mem_of_getElem? hi)

/-- A unit has the instructions of its operations and those that end it. -/
theorem CodeUnit.Holds.length_instructions {filename : String} {function : Option String}
    {items : List (Item × Nat)} (h : u.Holds filename function items) :
    u.instructions.length
      = (operationsIn items).length + (closingOf function (operationsIn items)).length := by
  obtain ⟨is, heq, hbecomes⟩ := h.instructions
  rw [heq, List.length_append, hbecomes.length_eq]

theorem CodeUnit.Holds.length_lines {filename : String} {function : Option String}
    {items : List (Item × Nat)} (h : u.Holds filename function items) :
    u.lines.length = u.instructions.length := by
  rw [h.lines, h.length_instructions, List.length_map, List.length_append, List.length_map,
    List.length_replicate]

/-- An item that a line has said, or that binds a name to one of `count` children. -/
def Assembly.Item.ProperFor (count : Nat) (item : Item) : Prop :=
  item.Valid ∨ ∃ child < count, child < 256 ∧ ∃ name, item = .operation (bindingOf child name)

/-- What the operations of lines have in common with the definitions of functions. -/
structure Assembly.Operation.Regular (op : Operation) : Prop where
  registers : op.instruction.RegistersValid
  symbol : op.instruction.opcode.hasSymbolOperand = true → ∃ text, op.reference = .symbol text
  label : op.instruction.opcode.jumps = true → ∃ name, op.reference = .label name
  window : op.instruction.opcode = .call →
    op.instruction.src1.toNat + op.instruction.mode.toNat ≤ registerCount

theorem Assembly.Item.ProperFor.regular {op : Operation} {count : Nat}
    (h : (Item.operation op).ProperFor count) : op.Regular := by
  rcases h with hvalid | ⟨child, -, -, name, hitem⟩
  · have hvalid : op.Valid := hvalid
    exact ⟨hvalid.registers, hvalid.symbol, hvalid.label, hvalid.window⟩
  · have hzero : (0 : UInt8) < 32 := by decide
    rw [Item.operation.inj hitem]
    exact ⟨⟨hzero, hzero, hzero⟩, fun _ => ⟨name, rfl⟩, nofun, nofun⟩

/-- A unit that holds what lines say names registers that exist. -/
theorem CodeUnit.Holds.registersValid {filename : String} {function : Option String}
    {items : List (Item × Nat)} (h : u.Holds filename function items) {count : Nat}
    (hitems : ∀ item ∈ items, item.1.ProperFor count) : ∀ i ∈ u.instructions, i.RegistersValid := by
  intro i hi
  obtain ⟨position, hat⟩ := List.mem_iff_getElem?.1 hi
  rcases h.instruction_cases hat with ⟨op, hop, hb⟩ | hclosing
  · have hregular := (hitems _ (mem_of_mem_operationsIn (List.mem_of_getElem? hop))).regular
    obtain ⟨imm, rfl⟩ := hb.eq_imm
    exact hregular.registers
  · exact (plain_of_mem_closingOf hclosing).1

/-- A unit is sound if its items are what lines say and definitions of its children. -/
theorem CodeUnit.Holds.sound {filename : String} {function : Option String}
    {items : List (Item × Nat)} (h : u.Holds filename function items)
    (hfew : items.length < 0x80000000)
    (hitems : ∀ item ∈ items, item.1.ProperFor u.children.length) : u.Sound := by
  intro i hi
  obtain ⟨position, hat⟩ := List.mem_iff_getElem?.1 hi
  rcases h.instruction_cases hat with ⟨op, hop, hb⟩ | hclosing
  · have hr := h.refers (Nat.lt_of_le_of_lt (length_operationsIn_le items) hfew) hb
    rcases hitems _ (mem_of_mem_operationsIn (List.mem_of_getElem? hop)) with
      hvalid | ⟨child, hchild, hlt, name, hitem⟩
    · exact soundIn_of_valid hvalid hb hr
    · rw [Item.operation.inj hitem] at hb hr
      exact soundIn_of_definition hchild hlt hb hr
  · obtain ⟨opcode, hopcode, rfl⟩ := mem_closingOf hclosing
    exact Instruction.soundIn_plain hopcode u

/-- A source has at most 256 functions. -/
theorem Assembly.WellFormed.few {source : String} {ss : List Statement} (h : WellFormed source ss) :
    (Outline.statements {} 1 ss).functions.length ≤ 256 :=
  h.complete.blocks ▸ h.proper.few

/-- The items of the top level are what lines say and definitions of the functions. -/
theorem Assembly.WellFormed.top {source : String} {ss : List Statement} (h : WellFormed source ss) :
    ∀ item ∈ (Outline.statements {} 1 ss).top,
      item.1.ProperFor (Outline.statements {} 1 ss).functions.length := by
  intro item hitem
  refine (h.proper.top item hitem).imp id ?_
  rintro ⟨child, hchild, hname⟩
  rw [h.complete.blocks] at hchild
  exact ⟨child, hchild, Nat.lt_of_lt_of_le hchild h.few, hname⟩

/-- The items of a function are what lines say. -/
theorem Assembly.WellFormed.function {source : String} {ss : List Statement}
    (h : WellFormed source ss) (count : Nat) :
    ∀ b ∈ (Outline.statements {} 1 ss).functions, ∀ item ∈ b.items, item.1.ProperFor count := by
  intro b hb item hitem
  exact Or.inl (h.proper.functions b (h.complete.blocks ▸ hb) item hitem)

/-- The numbers of so few children fit. -/
theorem map_toNat_children {count : Nat} (h : count ≤ 256) :
    ((List.range count).map fun k => UInt32.ofNat (k + 1)).map UInt32.toNat
      = List.range' 1 count := by
  rw [List.map_map, List.range'_eq_map_range]
  refine List.map_congr_left fun k hk => ?_
  have hlt : k + 1 < UInt32.size :=
    Nat.lt_of_le_of_lt (Nat.le_trans (List.mem_range.1 hk) h) (by decide)
  exact (UInt32.toNat_ofNat_of_lt' hlt).trans (Nat.add_comm k 1)

/-- The units of a source hold what its lines say, and have their children among them. -/
theorem exists_holds_of_assemble {source filename : String}
    (h : assemble source filename = .ok us) :
    us ≠ [] ∧ ∀ (k : Nat) (u : CodeUnit), us[k]? = some u → u.ChildrenWithin us.length k
      ∧ ∃ function items, u.Holds filename function items ∧ items.length ≤ statementCount source
        ∧ ∀ item ∈ items, item.1.ProperFor u.children.length := by
  obtain ⟨ss, hwell, top, functions, rfl, htop, hchildren, hfunctions⟩ := outline_of_assemble h
  have hproper := hwell.proper
  have hcount : top.children.length = (Outline.statements {} 1 ss).functions.length := by
    rw [hchildren, List.length_map, List.length_range]
  refine ⟨List.cons_ne_nil top functions, fun k u hu => ?_⟩
  cases k with
  | zero =>
    cases hu
    constructor
    · intro offset hoffset
      have hmem : offset.toNat ∈ top.children.map UInt32.toNat := List.mem_map_of_mem hoffset
      rw [hchildren, map_toNat_children hwell.few, List.mem_range'_1] at hmem
      rw [List.length_cons, ← hfunctions.length_eq]
      omega
    · exact ⟨none, _, htop, hproper.topLength, hcount ▸ hwell.top⟩
  | succ k =>
    obtain ⟨b, hb, hcodes, hnone⟩ := exists_of_forall₂ hfunctions (List.mem_of_getElem? hu)
    constructor
    · rw [CodeUnit.ChildrenWithin, hnone]
      exact nofun
    · exact ⟨some b.name, b.items, hcodes, hproper.lengths b (hwell.complete.blocks ▸ hb),
        hwell.function _ b hb⟩

/-- What a source is assembled into is sound. -/
theorem soundTable_of_assemble {source filename : String}
    (h : assemble source filename = .ok us) (hfew : statementCount source < 0x80000000) :
    us ≠ [] ∧ SoundTable us := by
  obtain ⟨hne, hunits⟩ := exists_holds_of_assemble h
  refine ⟨hne, fun k u hu => ?_⟩
  obtain ⟨hchildren, function, items, hholds, hlength, hproper⟩ := hunits k u hu
  exact ⟨hholds.sound (Nat.lt_of_le_of_lt hlength hfew) hproper, hchildren⟩

/-- A complete group of units that comes from a source of fewer than 2³¹ statements.  It may have
been written and read back, attributed to a file, and finalized, in any order. -/
inductive AssembledGroup : List CodeUnit → Prop
  | assembled {us : List CodeUnit} {source filename : String} (hfew : statementCount source < 0x80000000)
      (h : assemble source filename = .ok us) : AssembledGroup us
  | readBack {us vs : List CodeUnit} {bytes : List UInt8} (h : AssembledGroup us)
      (hw : Bytecode.write? us = some bytes) (hr : Bytecode.read bytes = .ok vs) : AssembledGroup vs
  | attributed {us : List CodeUnit} (h : AssembledGroup us) (filename : Option String) :
      AssembledGroup (us.map fun u => { u with filename })
  | finalized {us : List CodeUnit} (h : AssembledGroup us) :
      AssembledGroup (us.modifyHead CodeUnit.finalize)

theorem AssembledGroup.sound (h : AssembledGroup us) : us ≠ [] ∧ SoundTable us := by
  induction h with
  | assembled hfew h => exact soundTable_of_assemble h hfew
  | readBack _ hw hr ih => exact ih.2.of_read ih.1 hw hr
  | attributed _ filename ih => exact ⟨mt List.map_eq_nil_iff.1 ih.1, ih.2.attributed filename⟩
  | @finalized us _ ih =>
    refine ⟨fun hnil => ih.1 ?_, ih.2.finalized⟩
    have hlength := congrArg List.length hnil
    rw [List.length_modifyHead] at hlength
    exact List.eq_nil_of_length_eq_zero hlength

/-- A table of such groups is sound. -/
theorem soundTable_flatten {groups : List (List CodeUnit)} (h : ∀ g ∈ groups, AssembledGroup g) :
    SoundTable groups.flatten := by
  induction groups with
  | nil => exact SoundTable.nil
  | cons g groups ih =>
    rw [List.flatten_cons]
    exact (h g List.mem_cons_self).sound.2.append
      (ih fun g' hg' => h g' (List.mem_cons_of_mem g hg'))

end ModuleHost
