import ModuleHost.Proofs.Assembly.Located

/-!
# What units of a source are like

Every unit of a source has a line for each instruction, registers and windows of arguments that are
there, symbols that are in its table, jumps that lead to where their labels stand, and lines in the
order in which the source has them (`CodeUnit.WellMade`).  The unit of the top level has the
functions as its children and a definition for each of them (`assemble_wellMade`).  Indices,
targets and lines are kept in 32 bits, so they are cut down in a source that is too long for this.
-/

namespace ModuleHost

open Assembly

/-- The number is what the immediate has room for; numbers below 2³¹ are kept. -/
structure Assembly.Immediate (imm : Int32) (n : Nat) : Prop where
  cut : imm = Int32.ofNat n
  kept : n < 0x80000000 → imm.toInt = n

/-- The number is what the entry has room for; numbers below 2³² are kept. -/
structure Assembly.LineEntry (entry : UInt32) (n : Nat) : Prop where
  cut : entry = UInt32.ofNat n
  kept : n < 0x100000000 → entry.toNat = n

/-- The operation at `position` of the items is a jump.  Its label is defined once, and `imm` is the
number of operations before it, of which there are at most `count`. -/
def Assembly.LeadsToLabel (items : List (Item × Nat)) (position : Nat) (imm : Int32)
    (count : Nat) : Prop :=
  ∃ op name before line after, (operationsIn items)[position]? = some op
    ∧ op.1.reference = .label name
    ∧ items = before ++ (.label name, line) :: after
    ∧ name ∉ labelNames before ∧ name ∉ labelNames after
    ∧ Immediate imm (operationsIn before).length ∧ (operationsIn before).length ≤ count

/-- What is known of a unit that holds these items, in a source with so many lines. -/
structure CodeUnit.WellMade (u : CodeUnit) (items : List (Item × Nat)) (lineCount : Nat) :
    Prop where
  length : u.lines.length = u.instructions.length
  registers : ∀ i ∈ u.instructions, i.RegistersValid
  windows : ∀ i ∈ u.instructions, i.opcode = .call →
    i.src1.toNat + i.mode.toNat ≤ registerCount
  symbols : ∀ i ∈ u.instructions, i.opcode.hasSymbolOperand = true →
    ∃ k < u.symbols.length, Immediate i.imm k
  distinct : u.symbols.Nodup
  jumps : ∀ (position : Nat) (i : Instruction), u.instructions[position]? = some i →
    i.opcode.jumps = true → LeadsToLabel items position i.imm u.instructions.length
  /-- The lines are not decreasing, and are those of the source; a unit without items has 0. -/
  lines : ∃ ns, List.Forall₂ LineEntry u.lines ns ∧ ns.Pairwise (· ≤ ·)
    ∧ ∀ n ∈ ns, n ≤ lineCount ∧ (n = 0 ↔ items = [])

def Instruction.Binds (u : CodeUnit) (name : String) (child : Nat) (i : Instruction) : Prop :=
  i.mode.toNat = child ∧ ∃ k, u.symbols[k]? = some name ∧ Immediate i.imm k

namespace Assembly

variable {items : List (Item × Nat)} {ss : List Statement} {i : Instruction}

theorem immediate_ofNat (n : Nat) : Immediate (Int32.ofNat n) n where
  cut := rfl
  kept := Int32.toInt_ofNat_of_lt

theorem lineEntry_ofNat (n : Nat) : LineEntry (UInt32.ofNat n) n where
  cut := rfl
  kept := UInt32.toNat_ofNat_of_lt'

/-! ### Labels -/

/-- The first label of the name stands behind as many operations as its entry says. -/
theorem exists_of_lookup_labelsFrom {count target : Nat} {name : String}
    (h : (labelsFrom count items).lookup name = some target) :
    ∃ before line after, items = before ++ (.label name, line) :: after
      ∧ name ∉ labelNames before ∧ target = count + (operationsIn before).length := by
  induction items generalizing count with
  | nil => cases h
  | cons item items ih =>
    obtain ⟨item, line⟩ := item
    cases item with
    | label other =>
      rw [labelsFrom, List.lookup_cons] at h
      by_cases hname : name = other
      · subst hname
        rw [beq_self_eq_true] at h
        cases h
        exact ⟨[], line, items, rfl, List.not_mem_nil, rfl⟩
      · rw [beq_false_of_ne hname] at h
        obtain ⟨before, line', after, rfl, hnew, rfl⟩ := ih h
        refine ⟨(.label other, line) :: before, line', after, rfl, ?_, rfl⟩
        exact List.not_mem_cons_of_ne_of_not_mem hname hnew
    | operation op =>
      obtain ⟨before, line', after, rfl, hnew, rfl⟩ := ih h
      refine ⟨(.operation op, line) :: before, line', after, rfl, hnew, ?_⟩
      rw [operationsIn, List.length_cons, Nat.add_assoc, Nat.add_comm 1]

/-- A jump of a unit leads to its label. -/
theorem Arranged.leadsToLabel (h : Arranged ss items) {symbols : List String} {position : Nat}
    {op : Operation × Nat} {name : String} (hop : (operationsIn items)[position]? = some op)
    (href : op.1.reference = .label name) (hb : op.1.Becomes symbols (labelsIn items) i)
    {count : Nat} (hcount : (operationsIn items).length ≤ count) :
    LeadsToLabel items position i.imm count := by
  rw [Operation.Becomes, href] at hb
  obtain ⟨target, hlookup, rfl⟩ := hb
  have hle := le_of_lookup_labelsFrom hlookup
  obtain ⟨before, line, after, heq, hnew, rfl⟩ := exists_of_lookup_labelsFrom hlookup
  have hdistinct := h.distinct
  rw [heq, labelNames_append] at hdistinct
  rw [Nat.zero_add] at hle ⊢
  rw [Nat.zero_add] at hle
  exact ⟨op, name, before, line, after, hop, href, heq, hnew,
    (List.nodup_cons.1 (List.nodup_append.1 hdistinct).2.1).1, immediate_ofNat _,
    Nat.le_trans hle hcount⟩

/-! ### Lines -/

theorem sublist_lines (items : List (Item × Nat)) :
    ((operationsIn items).map Prod.snd).Sublist (items.map Prod.snd) := by
  induction items with
  | nil => exact .slnil
  | cons item items ih =>
    obtain ⟨item, line⟩ := item
    cases item with
    | label name => exact ih.cons line
    | operation op => exact ih.cons_cons line

theorem Arranged.le_lastLineOf (h : Arranged ss items) :
    ∀ item ∈ items, item.2 ≤ lastLineOf items := by
  rcases List.eq_nil_or_concat' items with rfl | ⟨init, ⟨last, line⟩, rfl⟩
  · exact nofun
  · intro item hitem
    rw [lastLineOf_concat]
    have hsorted := h.sorted
    rw [List.map_append, List.pairwise_append] at hsorted
    rcases List.mem_append.1 hitem with hinit | hlast
    · exact Nat.le_of_lt (hsorted.2.2 _ (List.mem_map_of_mem hinit) line List.mem_cons_self)
    · exact Nat.le_of_eq (congrArg Prod.snd (List.mem_singleton.1 hlast))

/-- The line of the last item is a line of the source, if there is an item. -/
theorem Arranged.lastLineOf_bounds (h : Arranged ss items) :
    lastLineOf items ≤ ss.length ∧ (lastLineOf items = 0 ↔ items = []) := by
  rcases List.eq_nil_or_concat' items with rfl | ⟨init, ⟨last, line⟩, rfl⟩
  · exact ⟨Nat.zero_le _, iff_of_true rfl rfl⟩
  · have hbounds := h.line_bounds (last, line) (List.mem_append_right init List.mem_cons_self)
    rw [lastLineOf_concat]
    exact ⟨hbounds.2, iff_of_false (Nat.ne_of_gt hbounds.1) (by simp)⟩

end Assembly

/-! ### Units -/

namespace CodeUnit.Holds

variable {u : CodeUnit} {filename : String} {function : Option String} {items : List (Item × Nat)}
  {ss : List Statement} {i : Instruction} {count : Nat}

/-- An instruction that refers to something, or calls, is an operation that does. -/
theorem regular_cases (h : u.Holds filename function items)
    (hitems : ∀ item ∈ items, item.1.ProperFor count) {position : Nat}
    (hi : u.instructions[position]? = some i) :
    (∃ op, (operationsIn items)[position]? = some op ∧ op.1.Regular
        ∧ op.1.Becomes u.symbols (labelsIn items) i)
      ∨ i.opcode ∉ [.call, .define] ∧ i.opcode.hasSymbolOperand = false
        ∧ i.opcode.jumps = false := by
  rcases h.instruction_cases hi with ⟨op, hop, hb⟩ | hclosing
  · have hmem := mem_of_mem_operationsIn (List.mem_of_getElem? hop)
    exact Or.inl ⟨op, hop, (hitems _ hmem).regular, hb⟩
  · exact Or.inr (plain_of_mem_closingOf hclosing).2

/-- The lines of a unit are those of its operations, followed by that of its last item. -/
theorem ordered_lines (h : u.Holds filename function items) (harranged : Arranged ss items) :
    ∃ ns, List.Forall₂ LineEntry u.lines ns ∧ ns.Pairwise (· ≤ ·)
      ∧ ∀ n ∈ ns, n ≤ ss.length ∧ (n = 0 ↔ items = []) := by
  have hmem : ∀ n ∈ (operationsIn items).map Prod.snd, ∃ item ∈ items, item.2 = n := fun n hn =>
    List.mem_map.1 ((sublist_lines items).subset hn)
  let last := List.replicate (closingOf function (operationsIn items)).length (lastLineOf items)
  refine ⟨(operationsIn items).map Prod.snd ++ last, ?_, List.pairwise_append.2 ⟨?_, ?_, ?_⟩, ?_⟩
  · rw [h.lines, List.forall₂_map_left_iff, List.forall₂_same]
    exact fun n _ => lineEntry_ofNat n
  · exact (harranged.sorted.sublist (sublist_lines items)).imp Nat.le_of_lt
  · exact List.pairwise_replicate.2 (Or.inr (Nat.le_refl _))
  · intro n hn n' hn'
    obtain ⟨item, hitem, rfl⟩ := hmem n hn
    rw [List.eq_of_mem_replicate hn']
    exact harranged.le_lastLineOf item hitem
  · intro n hn
    rcases List.mem_append.1 hn with hn | hn
    · obtain ⟨item, hitem, rfl⟩ := hmem n hn
      have hbounds := harranged.line_bounds item hitem
      exact ⟨hbounds.2, iff_of_false (Nat.ne_of_gt hbounds.1) (List.ne_nil_of_mem hitem)⟩
    · rw [List.eq_of_mem_replicate hn]
      exact harranged.lastLineOf_bounds

/-- A unit that holds items of a source is well made. -/
theorem wellMade (h : u.Holds filename function items) (harranged : Arranged ss items)
    (hitems : ∀ item ∈ items, item.1.ProperFor count) : u.WellMade items ss.length where
  length := h.length_lines
  registers := h.registersValid hitems
  windows i hi hcall := by
    obtain ⟨position, hat⟩ := List.mem_iff_getElem?.1 hi
    rcases h.regular_cases hitems hat with ⟨op, -, hregular, hb⟩ | ⟨hplain, -⟩
    · rw [hb.opcode] at hcall
      obtain ⟨imm, rfl⟩ := hb.eq_imm
      exact hregular.window hcall
    · exact absurd (hcall ▸ List.mem_cons_self) hplain
  symbols i hi hsymbol := by
    obtain ⟨position, hat⟩ := List.mem_iff_getElem?.1 hi
    rcases h.regular_cases hitems hat with ⟨op, -, hregular, hb⟩ | ⟨-, hplain, -⟩
    · rw [hb.opcode] at hsymbol
      obtain ⟨text, href⟩ := hregular.symbol hsymbol
      rw [Operation.Becomes, href] at hb
      obtain ⟨k, hk, rfl⟩ := hb
      exact ⟨k, (List.getElem?_eq_some_iff.1 hk).1, immediate_ofNat k⟩
    · rw [hplain] at hsymbol
      cases hsymbol
  distinct := h.nodup
  jumps position i hi hjump := by
    rcases h.regular_cases hitems hi with ⟨op, hop, hregular, hb⟩ | ⟨-, -, hplain⟩
    · rw [hb.opcode] at hjump
      obtain ⟨name, href⟩ := hregular.label hjump
      refine harranged.leadsToLabel hop href hb ?_
      rw [h.length_instructions]
      exact Nat.le_add_right _ _
    · rw [hplain] at hjump
      cases hjump
  lines := h.ordered_lines harranged

/-- The definitions among the items become those of the unit: none is among the instructions that
end it. -/
theorem definitions (h : u.Holds filename function items) :
    List.Forall₂ (fun op i => op.Becomes u.symbols (labelsIn items) i) (definitionsIn items)
      (u.instructions.filter (·.opcode = .define)) := by
  obtain ⟨is, heq, hbecomes⟩ := h.instructions
  have hclosing : (closingOf function (operationsIn items)).filter (·.opcode = .define) = [] := by
    refine List.filter_eq_nil_iff.2 fun i hi hdefine => ?_
    have hopcode : i.opcode = .define := of_decide_eq_true hdefine
    refine (plain_of_mem_closingOf hi).2.1 ?_
    rw [hopcode]
    decide
  rw [heq, List.filter_append, hclosing, List.append_nil]
  refine List.rel_filter (fun op i hb => ?_) (List.forall₂_map_left_iff.2 hbecomes)
  show decide (op.instruction.opcode = .define) = true ↔ decide (i.opcode = .define) = true
  rw [hb.opcode]

/-- The definitions of a unit bind the names with which functions start to their numbers. -/
theorem binds (h : u.Holds filename function items) {names : List String}
    (hdefinitions : definitionsIn items = names.zipIdx.map fun d => bindingOf d.2 d.1)
    (hfew : names.length ≤ 256) :
    List.Forall₂ (fun d i => i.Binds u d.1 d.2) names.zipIdx
      (u.instructions.filter (·.opcode = .define)) := by
  have hbecome := h.definitions
  rw [hdefinitions, List.forall₂_map_left_iff] at hbecome
  have hnumbers : ∀ d ∈ names.zipIdx, d.2 < 256 := by
    intro d hd
    obtain ⟨-, hlt, -⟩ := List.mem_zipIdx hd
    rw [Nat.zero_add] at hlt
    exact Nat.lt_of_lt_of_le hlt hfew
  refine ((List.forall₂_and_left _ _).2 ⟨hnumbers, hbecome⟩).imp fun d i hd => ?_
  obtain ⟨hlt, k, hk, rfl⟩ := hd
  exact ⟨UInt8.toNat_ofNat_of_lt' hlt, k, hk, immediate_ofNat k⟩

end CodeUnit.Holds

/-- The units of a source are the code of its top level and of its functions, in the order in which
these start, and are all well made.  The functions are the children of the top level and have none
of their own; the definitions at the top level bind their names, one after the other. -/
theorem assemble_wellMade {source filename : String} {us : List CodeUnit}
    (h : assemble source filename = .ok us) :
    ∃ ss, WellFormed source ss ∧
      let o := Outline.statements {} 1 ss
      let names := ss.filterMap Statement.started?
      let lineCount := (Text.lines source.toList).length
      ∃ top functions, us = top :: functions ∧ functions.length ≤ 256
        ∧ top.Holds filename none o.top ∧ top.WellMade o.top lineCount
        ∧ top.children.map UInt32.toNat = List.range' 1 functions.length
        ∧ List.Forall₂ (fun d i => i.Binds top d.1 d.2) names.zipIdx
          (top.instructions.filter (·.opcode = .define))
        ∧ o.functions.map Block.name = names
        ∧ List.Forall₂ (fun b u => Block.Codes filename b u ∧ u.WellMade b.items lineCount)
          o.functions functions := by
  obtain ⟨ss, hwell, top, functions, rfl, htop, hchildren, hfunctions⟩ := outline_of_assemble h
  refine ⟨ss, hwell, ?_⟩
  intro o names lineCount
  have harranged : o.Arranged ss := arranged_statements hwell.accepted
  have hdefines : o.Defines ss := defines_statements hwell.accepted (valid_of_mapM hwell.lines)
  have hblocks : o.blocks = o.functions := hwell.complete.blocks
  have hcount : lineCount = ss.length := (forall₂_of_mapM hwell.lines).length_eq
  have hlength : o.functions.length = functions.length := hfunctions.length_eq
  have hnames : o.functions.map Block.name = names := hblocks ▸ hdefines.names
  rw [hcount]
  refine ⟨top, functions, rfl, hlength ▸ hwell.few, htop, htop.wellMade harranged.top hwell.top,
    ?_, htop.binds hdefines.definitions ?_, hnames, ?_⟩
  · rw [hchildren, map_toNat_children hwell.few, hlength]
  · rw [← hnames, List.length_map]
    exact hwell.few
  · refine ((List.forall₂_and_left _ _).2 ⟨fun b hb => hb, hfunctions⟩).imp fun b u hu => ?_
    obtain ⟨hb, hcodes⟩ := hu
    exact ⟨hcodes, hcodes.1.wellMade (harranged.blocks b (hblocks ▸ hb)) (hwell.function 0 b hb)⟩

/-- A function with a jump back to its first line, and a call of it. -/
theorem assemble_wellMade_back :
    ∃ top function, assemble ".def f\nagain:\njmp again\n.end\ncall r0, f" "a.nl"
        = .ok [top, function]
      ∧ top.children.map UInt32.toNat = [1]
      ∧ function.WellMade [(.label "again", 2), (.operation
        { instruction := { opcode := .jump }, reference := .label "again" }, 3)] 5 := by
  let source := ".def f\nagain:\njmp again\n.end\ncall r0, f"
  let top : CodeUnit := {
    filename := some "a.nl"
    instructions := [{ opcode := .define }, { opcode := .call }, { opcode := .halt }]
    lines := [1, 5, 5]
    symbols := ["f"]
    children := [1] }
  let function : CodeUnit := {
    filename := some "a.nl"
    instructions := [{ opcode := .jump }, { opcode := .loadNil }, { opcode := .ret }]
    lines := [3, 3, 3] }
  have h : assemble source "a.nl" = .ok [top, function] := by decide +kernel
  have hlines : (Text.lines source.toList).mapM Statement.ofLine = .ok [
      .functionStart (some ['f']), .label "again",
      .operation { instruction := { opcode := .jump }, reference := .label "again" },
      .functionEnd,
      .operation { instruction := { opcode := .call }, reference := .symbol "f" }] := by
    decide +kernel
  obtain ⟨ss, hwell, _, _, heq, -, -, -, hchildren, -, -, hfunctions⟩ := assemble_wellMade h
  cases heq
  cases hwell.lines.symm.trans hlines
  obtain ⟨b, hb, -, hmade⟩ := exists_of_forall₂ hfunctions List.mem_cons_self
  have hcount : (Text.lines source.toList).length = 5 := by decide
  rw [List.mem_singleton.1 hb, hcount] at hmade
  exact ⟨top, function, h, hchildren, hmade⟩

end ModuleHost
