import ModuleHost.Proofs.Assembly.Calls
import ModuleHost.Proofs.Assembly.Items
import ModuleHost.Proofs.Bytecode.NormalForm
import ModuleHost.Proofs.Machine.Dispatched

/-!
# Bodies made of calls

A source that consists of calls is assembled into a unit that fits into a stream, and the unit is
placed in the table.  What stands there in the end is the code of the calls, and behind it the
return that has taken the place of the halt (`body_of_makesCalls`).
-/

namespace ModuleHost

open Assembly (TextCall MakesCalls Coded)

structure CodeUnit.IsBody (v : CodeUnit) (path : String) (calls : List TextCall)
    (is : List Instruction) : Prop where
  filename : v.filename = some path
  instructions : v.instructions = is ++ [{ opcode := .loadNil }, { opcode := .ret }]
  coded : Coded v.symbols calls is
  few : v.symbols.length ≤ Bytecode.maxLength

variable {v : CodeUnit} {path source s : String} {calls : List TextCall} {is : List Instruction}

theorem CodeUnit.IsBody.symbol?_ofNat (hv : v.IsBody path calls is) {i : Nat}
    (h : v.symbols[i]? = some s) : v.symbol? (Int32.ofNat i) = some s := by
  have hi : i < v.symbols.length := (List.getElem?_eq_some_iff.1 h).1
  have hbound : Bytecode.maxLength < 0x80000000 := by decide
  exact CodeUnit.symbol?_ofNat h (Nat.lt_of_lt_of_le hi (Nat.le_trans hv.few (Nat.le_of_lt hbound)))

/-- Limits within which the unit of a source that consists of calls can be written. -/
structure Writable (path : String) (calls : List TextCall) : Prop where
  short : path.utf8ByteSize ≤ Bytecode.maxLength
  few : 2 * calls.length + 1 ≤ Bytecode.maxLength
  texts : ∀ c ∈ calls, c.text.utf8ByteSize ≤ Bytecode.maxLength
    ∧ c.function.utf8ByteSize ≤ Bytecode.maxLength

theorem body_of_makesCalls (h : MakesCalls source calls) (hw : Writable path calls) :
    ∃ u bytes v is, Assembly.assemble source path = .ok [u]
      ∧ Bytecode.write? [u] = some bytes ∧ CodeUnit.placed path [u] = [v]
      ∧ v.IsBody path calls is := by
  obtain ⟨u, is, hassemble, hfilename, hchildren, hinstructions, hcoded, hfew, hsymbols⟩ :=
    Assembly.assemble_calls h path
  have hfits : (Bytecode.Field.ofUnits [u]).all Bytecode.Field.fits = true := by
    rw [Bytecode.Field.ofUnits_fits]
    refine ⟨show 1 ≤ Bytecode.maxLength by decide, ?_⟩
    intro u' hu'
    rw [List.mem_singleton.1 hu', Bytecode.Field.ofUnit_fits, hfilename, hchildren, hinstructions,
      List.length_append, hcoded.length]
    refine ⟨?_, hw.few, ?_, ?_, by decide⟩
    · rw [Option.getD_some, Bytes.length_ofText]
      exact hw.short
    · have hcalls := hw.few
      omega
    · intro s hs
      rw [Bytes.length_ofText]
      obtain ⟨c, hc, rfl | rfl⟩ := hsymbols s hs
      · exact (hw.texts c hc).1
      · exact (hw.texts c hc).2
  have hwrite : Bytecode.write? [u]
      = some ((Bytecode.Field.ofUnits [u]).flatMap Bytecode.Field.bytes) := if_pos hfits
  have hhalt : ({ u with filename := some path } : CodeUnit).EndsInHalt := by
    show u.instructions.getLast?.map (·.opcode) = some .halt
    rw [hinstructions, List.getLast?_concat]
    rfl
  refine ⟨u, _, ({ u with filename := some path } : CodeUnit).finalize, is, hassemble, hwrite, rfl,
    ?_⟩
  rw [CodeUnit.finalize, if_pos hhalt]
  refine ⟨rfl, ?_, hcoded, Nat.le_trans hfew ?_⟩
  · show (u.instructions.dropLast ++ _) ++ _ = _
    rw [hinstructions, List.dropLast_concat, List.append_assoc]
    rfl
  · have hcalls := hw.few
    omega

end ModuleHost
