import ModuleHost.Instruction.Basic

/-!
# Code units

A code unit is one executable body with the tables its instructions refer to.  Units stand next to
each other in the unit table of a host; a unit names its children by their distance from itself, so
a group of units keeps its references wherever it is placed.
-/

namespace ModuleHost

structure CodeUnit where
  /-- The file that backtraces report. -/
  filename : Option String := none
  instructions : List Instruction := []
  /-- The source line of each instruction. -/
  lines : List UInt32 := []
  symbols : List String := []
  /-- The distance of each child from this unit. -/
  children : List UInt32 := []
deriving DecidableEq, Repr, Inhabited

namespace CodeUnit

def push (u : CodeUnit) (i : Instruction) (line : UInt32) : CodeUnit :=
  { u with instructions := u.instructions ++ [i], lines := u.lines ++ [line] }

/-- The unit with `symbol` in its table, and the first index at which it stands there. -/
def intern (u : CodeUnit) (symbol : String) : CodeUnit × Nat :=
  match u.symbols.idxOf? symbol with
  | some index => (u, index)
  | none => ({ u with symbols := u.symbols ++ [symbol] }, u.symbols.length)

def symbol? (u : CodeUnit) (index : Int32) : Option String :=
  if index < 0 then none else u.symbols[index.toInt.toNat]?

/-- The source line of the instruction at `position`, 0 if none is known. -/
def lineAt (u : CodeUnit) (position : Nat) : UInt32 := (u.lines[position]?).getD 0

/-- The line table of exactly the instructions: cut, or filled up with zeros. -/
def instructionLines (u : CodeUnit) : List UInt32 :=
  (List.range u.instructions.length).map u.lineAt

def EndsInHalt (u : CodeUnit) : Prop := u.instructions.getLast?.map (·.opcode) = some .halt

instance (u : CodeUnit) : Decidable u.EndsInHalt := inferInstanceAs (Decidable (_ = _))

/-- A trailing halt becomes `nil r0` and `ret r0`, so that the unit hands control back to its caller
instead of stopping the host.  The added instruction has the line of the one before it. -/
def finalize (u : CodeUnit) : CodeUnit :=
  if u.EndsInHalt then
    let instructions := u.instructions.dropLast ++ [{ opcode := .loadNil }]
    ({ u with instructions } : CodeUnit).push { opcode := .ret } (u.lines.getLast?.getD 0)
  else u

variable {u : CodeUnit}

/-! ### Symbols -/

theorem intern_eq (u : CodeUnit) (symbol : String) :
    ∃ new index, u.intern symbol = ({ u with symbols := u.symbols ++ new }, index)
      ∧ (u.symbols ++ new)[index]? = some symbol ∧ new.length ≤ 1 ∧ ∀ s ∈ new, s = symbol := by
  unfold intern
  cases h : u.symbols.idxOf? symbol with
  | some index =>
    obtain ⟨hlt, hget, _⟩ := List.findIdx?_eq_some_iff_getElem.1 h
    refine ⟨[], index, by rw [List.append_nil], ?_, Nat.zero_le _, by simp⟩
    rw [List.append_nil, List.getElem?_eq_getElem hlt, eq_of_beq hget]
  | none =>
    refine ⟨[symbol], u.symbols.length, rfl, ?_, Nat.le_refl _, fun s hs => List.mem_singleton.1 hs⟩
    rw [List.getElem?_append_right (Nat.le_refl _), Nat.sub_self]
    rfl

/-- No symbol stands twice in a table. -/
theorem nodup_intern (h : u.symbols.Nodup) (symbol : String) :
    (u.intern symbol).1.symbols.Nodup := by
  unfold intern
  cases hindex : u.symbols.idxOf? symbol with
  | some k => exact h
  | none =>
    refine List.nodup_append.2 ⟨h, List.pairwise_singleton _ symbol, fun s hs s' hs' heq => ?_⟩
    obtain rfl : s' = symbol := List.mem_singleton.1 hs'
    exact List.idxOf?_eq_none_iff.1 hindex (heq ▸ hs)

/-- The immediate that is the index of a symbol names it. -/
theorem symbol?_of_toInt_eq {imm : Int32} {index : Nat} {symbol : String}
    (h : u.symbols[index]? = some symbol) (himm : imm.toInt = index) :
    u.symbol? imm = some symbol := by
  have hnot : ¬ imm < 0 := by
    rw [Int32.lt_iff_toInt_lt, himm]
    exact Int.not_lt.2 (Int.natCast_nonneg index)
  rw [symbol?, if_neg hnot, himm, Int.toNat_natCast, h]

/-- A symbol is found under its index if the index is a number of 31 bits. -/
theorem symbol?_ofNat {index : Nat} {symbol : String} (h : u.symbols[index]? = some symbol)
    (hindex : index < 0x80000000) : u.symbol? (Int32.ofNat index) = some symbol :=
  symbol?_of_toInt_eq h (Int32.toInt_ofNat_of_lt hindex)

/-! ### Finalizing -/

theorem EndsInHalt.length_pos (hu : u.EndsInHalt) : 0 < u.instructions.length := by
  refine List.length_pos_iff.2 fun hnil => ?_
  rw [EndsInHalt, hnil] at hu
  cases hu

theorem instructions_finalize (hu : u.EndsInHalt) :
    u.finalize.instructions
      = u.instructions.dropLast ++ [{ opcode := .loadNil }, { opcode := .ret }] := by
  rw [finalize, if_pos hu]
  exact List.append_assoc _ _ _

theorem lines_finalize (hu : u.EndsInHalt) :
    u.finalize.lines = u.lines ++ [u.lines.getLast?.getD 0] := by
  rw [finalize, if_pos hu]
  rfl

theorem symbols_finalize (u : CodeUnit) : u.finalize.symbols = u.symbols := by
  unfold finalize
  split <;> rfl

theorem children_finalize (u : CodeUnit) : u.finalize.children = u.children := by
  unfold finalize
  split <;> rfl

theorem filename_finalize (u : CodeUnit) : u.finalize.filename = u.filename := by
  unfold finalize
  split <;> rfl

end CodeUnit

end ModuleHost
