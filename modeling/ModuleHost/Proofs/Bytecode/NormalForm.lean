import ModuleHost.Proofs.Bytecode.RoundTrip
import Mathlib.Data.List.Basic

/-!
# What a stream keeps

A group of units whose children stay inside the group can be written exactly when every length is
within the limit, and reading the stream gives back the group in its normal form
(`read_write?_iff_writable`).  A group in normal form comes back as it was.
-/

namespace ModuleHost

namespace CodeUnit

/-- All lengths of the unit can be written. -/
structure Writable (u : CodeUnit) : Prop where
  filename : (u.filename.getD "").utf8ByteSize ≤ 0x1000000
  instructions : u.instructions.length ≤ 0x1000000
  symbols : u.symbols.length ≤ 0x1000000
  texts : ∀ s ∈ u.symbols, s.utf8ByteSize ≤ 0x1000000
  children : u.children.length ≤ 0x1000000

/-- Nothing of the unit is lost in a stream. -/
structure IsNormal (u : CodeUnit) : Prop where
  filename : u.filename ≠ some ""
  registers : ∀ i ∈ u.instructions, i.RegistersValid
  lines : u.lines.length = u.instructions.length

theorem instructionLines_eq_takeD (u : CodeUnit) :
    u.instructionLines = u.lines.takeD u.instructions.length 0 := by
  have hgetD : ∀ (n : Nat) (lines : List UInt32),
      (List.range n).map (fun position => (lines[position]?).getD 0) = lines.takeD n 0 := by
    intro n
    induction n with
    | zero => intro lines; rfl
    | succ n ih =>
      intro lines
      rw [List.range_succ_eq_map, List.map_cons, List.map_map, List.takeD_succ, ← ih lines.tail]
      cases lines with
      | nil => rfl
      | cons line lines => rfl
  exact hgetD u.instructions.length u.lines

theorem instructionLines_of_length {u : CodeUnit} (h : u.lines.length = u.instructions.length) :
    u.instructionLines = u.lines := by
  rw [instructionLines, ← h]
  apply List.ext_getElem
  · rw [List.length_map, List.length_range]
  · intro n h₁ h₂
    rw [List.getElem_map, List.getElem_range, lineAt, List.getElem?_eq_getElem h₂,
      Option.getD_some]

theorem normal_eq (u : CodeUnit) :
    u.normal = { u with
      filename := u.filename.filter (· ≠ "")
      instructions := u.instructions.map Instruction.maskRegisters
      lines := u.lines.takeD u.instructions.length 0 } := by
  have hfilename : (if (u.filename.getD "").isEmpty then none else u.filename)
      = u.filename.filter (· ≠ "") := by
    cases u.filename with
    | none => rfl
    | some name =>
      by_cases h : name = ""
      · rw [h]
        rfl
      · have hne : name.isEmpty = false := by simpa using h
        simp [hne, Option.filter, h]
  rw [normal, hfilename, instructionLines_eq_takeD]

theorem IsNormal.normal {u : CodeUnit} (h : u.IsNormal) : u.normal = u := by
  have hfilename : (if (u.filename.getD "").isEmpty then none else u.filename) = u.filename := by
    cases hf : u.filename with
    | none => rfl
    | some name =>
      have hne : name ≠ "" := by
        rintro rfl
        exact h.filename hf
      have hempty : name.isEmpty = false := by simpa using hne
      simp [hempty]
  have hinstructions : u.instructions.map Instruction.maskRegisters = u.instructions := by
    rw [List.map_congr_left fun i hi => Instruction.maskRegisters_of_valid (h.registers i hi),
      List.map_id']
  rw [CodeUnit.normal, hfilename, hinstructions, instructionLines_of_length h.lines]

end CodeUnit

namespace Bytecode

theorem fits_iff_writable {us : List CodeUnit} :
    (Field.ofUnits us).all Field.fits = true ↔ us.length ≤ 0x1000000 ∧ ∀ u ∈ us, u.Writable := by
  have hunit : ∀ u : CodeUnit, (Field.ofUnit u).all Field.fits = true ↔ u.Writable := by
    intro u
    rw [Field.ofUnit_fits, Bytes.length_ofText]
    simp only [Bytes.length_ofText]
    exact ⟨fun ⟨h₁, h₂, h₃, h₄, h₅⟩ => ⟨h₁, h₂, h₃, h₄, h₅⟩,
      fun ⟨h₁, h₂, h₃, h₄, h₅⟩ => ⟨h₁, h₂, h₃, h₄, h₅⟩⟩
  rw [Field.ofUnits_fits]
  exact and_congr_right fun _ => forall₂_congr fun u _ => hunit u

theorem isSome_write?_iff {us : List CodeUnit} :
    (write? us).isSome = true ↔ us.length ≤ 0x1000000 ∧ ∀ u ∈ us, u.Writable := by
  rw [← fits_iff_writable, write?]
  split
  · next h => simp [h]
  · next h => simp [h]

/-- A group whose children stay inside it can be written if and only if every count and every text
is within the limit.  The stream is read back, whatever comes behind it: registers are reduced, the
lines are those of the instructions, an empty filename is none, and a group that is so already comes
back as it was. -/
theorem read_write?_iff_writable {us : List CodeUnit} (hne : us ≠ [])
    (hc : ∀ (i : Nat) (u : CodeUnit), us[i]? = some u → u.ChildrenWithin us.length i) :
    ((write? us).isSome = true ↔ us.length ≤ 0x1000000 ∧ ∀ u ∈ us, u.Writable)
      ∧ ∀ bytes, write? us = some bytes → ∀ rest,
        read (bytes ++ rest) = .ok (us.map fun u => { u with
          filename := u.filename.filter (· ≠ "")
          instructions := u.instructions.map Instruction.maskRegisters
          lines := u.lines.takeD u.instructions.length 0 })
        ∧ ((∀ u ∈ us, u.IsNormal) → read (bytes ++ rest) = .ok us) := by
  refine ⟨isSome_write?_iff, fun bytes hw rest => ⟨?_, fun hnormal => ?_⟩⟩
  · rw [read_of_write? hw hne hc rest]
    exact congrArg Except.ok (List.map_congr_left fun u _ => u.normal_eq)
  · rw [read_of_write? hw hne hc rest, List.map_congr_left fun u hu => (hnormal u hu).normal,
      List.map_id']

/-- A root with a child: the registers 33 and 40 become 1 and 8, the missing line becomes 0, the
third line is cut, and the empty filename is none. -/
theorem read_write?_group :
    ∃ bytes, write? [
        { filename := some "", symbols := ["é"], children := [1], lines := [7]
          instructions := [{ opcode := .define, dest := 33 }, { opcode := .halt }] },
        { filename := some "a.nl", lines := [1, 2]
          instructions := [{ opcode := .ret, src1 := 40, imm := -1 }] }] = some bytes
      ∧ read (bytes ++ [0, 255]) = .ok [
        { symbols := ["é"], children := [1], lines := [7, 0]
          instructions := [{ opcode := .define, dest := 1 }, { opcode := .halt }] },
        { filename := some "a.nl", lines := [1]
          instructions := [{ opcode := .ret, src1 := 8, imm := -1 }] }] := by
  have hround := @read_write?_iff_writable [
      { filename := some "", symbols := ["é"], children := [1], lines := [7]
        instructions := [{ opcode := .define, dest := 33 }, { opcode := .halt }] },
      { filename := some "a.nl", lines := [1, 2]
        instructions := [{ opcode := .ret, src1 := 40, imm := -1 }] }]
    (by simp) (by
      intro i u hu
      match i with
      | 0 => cases hu; intro offset ho; cases List.mem_singleton.1 ho; decide
      | 1 => cases hu; intro offset ho; cases ho
      | i + 2 => cases hu)
  obtain ⟨bytes, hbytes⟩ := Option.isSome_iff_exists.1 (hround.1.2 ⟨by decide, by
    intro u hu
    rcases List.mem_cons.1 hu with rfl | hu
    · exact ⟨by decide, by decide, by decide, by decide, by decide⟩
    · rw [List.mem_singleton.1 hu]
      exact ⟨by decide, by decide, by decide, by decide, by decide⟩⟩)
  refine ⟨bytes, hbytes, (hround.2 bytes hbytes [0, 255]).1.trans ?_⟩
  rfl

end Bytecode

end ModuleHost
