import ModuleHost.Proofs.Assembly.Groups

/-!
# Where the top level ends

The unit of the top level always ends in a halt, its own or one that is added (`Holds.endsInHalt`).
A jump leads to one of its instructions, except when the source itself ends in a halt with a label
behind it: nothing is added then, and the label stands where the unit is over (`LeadsBehindHalt`).
-/

namespace ModuleHost

open Assembly

namespace Assembly

/-- The operation at `position` jumps to a label that stands behind all operations, of which the
last one is a halt. -/
def LeadsBehindHalt (items : List (Item × Nat)) (position : Nat) : Prop :=
  ∃ op ∈ (operationsIn items)[position]?, ∃ name, op.1.reference = .label name
    ∧ (labelsIn items).lookup name = some (operationsIn items).length
    ∧ (operationsIn items).getLast?.map (·.1.instruction.opcode) = some .halt

/-- The operation at `position` of the top level of the source does so. -/
def JumpsBehindHalt (source : String) (position : Nat) : Prop :=
  ∃ ss, WellFormed source ss ∧ LeadsBehindHalt (Outline.statements {} 1 ss).top position

/-- Where the operations end in a halt, no other one is added; where they do not, one is. -/
theorem closingOf_top (ops : List (Operation × Nat)) :
    ops.getLast?.map (·.1.instruction.opcode) = some .halt ∧ closingOf none ops = []
      ∨ closingOf none ops = [{ opcode := .halt }] := by
  unfold closingOf
  dsimp only
  split
  · next hlast => exact Or.inl ⟨hlast, rfl⟩
  · exact Or.inr rfl

/-- Cutting a number down to 32 bits makes it no larger. -/
theorem toNat_toInt_ofNat_le (n : Nat) : (Int32.ofNat n).toInt.toNat ≤ n := by
  simp only [Int32.toInt_ofNat', Int.bmod_def, Int32.size]
  omega

end Assembly

namespace CodeUnit.Holds

variable {u : CodeUnit} {filename : String} {items : List (Item × Nat)} {i : Instruction}
  {position : Nat}

theorem endsInHalt (h : u.Holds filename none items) : u.EndsInHalt := by
  obtain ⟨is, heq, hbecomes⟩ := h.instructions
  rw [EndsInHalt, heq]
  rcases closingOf_top (operationsIn items) with ⟨hlast, hnil⟩ | hadded
  · rw [hnil, List.append_nil, ← List.getLast?_map, opcodes_of_becomes hbecomes,
      List.getLast?_map, hlast]
  · rw [hadded, List.getLast?_concat]
    rfl

/-- A jump leads to an instruction, or behind a halt of the source. -/
theorem target (h : u.Holds filename none items)
    (hlabel : ∀ op ∈ operationsIn items, op.1.instruction.opcode.jumps = true →
      ∃ name, op.1.reference = .label name)
    (hi : u.instructions[position]? = some i) (hjump : i.opcode.jumps = true) :
    i.imm.toInt.toNat < u.instructions.length
      ∨ i.imm.toInt.toNat = u.instructions.length ∧ LeadsBehindHalt items position := by
  rw [h.length_instructions]
  rcases h.instruction_cases hi with ⟨op, hop, hb⟩ | hclosing
  · rw [hb.opcode] at hjump
    obtain ⟨name, href⟩ := hlabel op (List.mem_of_getElem? hop) hjump
    rw [Operation.Becomes, href] at hb
    obtain ⟨target, hlookup, rfl⟩ := hb
    have hcut := toNat_toInt_ofNat_le target
    have hle := le_of_lookup_labelsFrom hlookup
    rw [Nat.zero_add] at hle
    rcases closingOf_top (operationsIn items) with ⟨hlast, hnil⟩ | hadded
    · -- nothing is added: the label may stand where the unit is over
      rw [hnil, List.length_nil, Nat.add_zero]
      rcases Nat.lt_or_eq_of_le (Nat.le_trans hcut hle) with hlt | hend
      · exact Or.inl hlt
      · have hlookup' : target = (operationsIn items).length :=
          Nat.le_antisymm hle (hend ▸ hcut)
        exact Or.inr ⟨hend, op, hop, name, href, hlookup' ▸ hlookup, hlast⟩
    · rw [hadded, List.length_singleton]
      exact Or.inl (Nat.lt_succ_of_le (Nat.le_trans hcut hle))
  · rw [(plain_of_mem_closingOf hclosing).2.2.2] at hjump
    cases hjump

end CodeUnit.Holds

/-- What is known of the unit of the top level: its last instruction is a halt, and its jumps lead
to one of its instructions or behind a halt of the source. -/
theorem topLevel_of_assemble {source filename : String} {root : CodeUnit}
    {functions : List CodeUnit} (h : assemble source filename = .ok (root :: functions)) :
    root.EndsInHalt ∧ ∀ (position : Nat) (i : Instruction),
      root.instructions[position]? = some i → i.opcode.jumps = true →
      i.imm.toInt.toNat < root.instructions.length
        ∨ i.imm.toInt.toNat = root.instructions.length ∧ JumpsBehindHalt source position := by
  obtain ⟨ss, hwell, top, _, heq, htop, -, -⟩ := outline_of_assemble h
  cases heq
  refine ⟨htop.endsInHalt, fun position i hi hjump => ?_⟩
  have hlabel : ∀ op ∈ operationsIn (Outline.statements {} 1 ss).top,
      op.1.instruction.opcode.jumps = true → ∃ name, op.1.reference = .label name := by
    intro op hop hjump
    exact (hwell.top _ (mem_of_mem_operationsIn hop)).regular.label hjump
  exact (htop.target hlabel hi hjump).imp id fun hend => ⟨hend.1, ss, hwell, hend.2⟩

end ModuleHost
