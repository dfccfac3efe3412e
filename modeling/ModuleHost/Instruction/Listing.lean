import ModuleHost.Instruction.Basic

/-!
# Instructions in a listing

The text of one instruction: its mnemonic, then the operands that its operation uses.  Registers
are written `r0`, symbols `@0` and children `child0`.
-/

namespace ModuleHost.Instruction

def registerText (r : UInt8) : String := "r" ++ toString r.toNat

def symbolText (imm : Int32) : String := "@" ++ toString imm.toInt

/-- The mnemonic of an arithmetic instruction, `alu.?` for a mode that names no operation. -/
def arithText (mode : UInt8) : String :=
  match ArithOp.ofCode? mode with
  | some op => op.mnemonic
  | none => "alu.?"

def operandTexts (i : Instruction) : List String :=
  match i.opcode with
  | .nop | .halt => []
  | .mov => [registerText i.dest, registerText i.src1]
  | .loadInt => [registerText i.dest, toString i.imm.toInt]
  | .loadNil | .loadSelf => [registerText i.dest]
  | .loadBool => [registerText i.dest, if i.imm = 0 then "false" else "true"]
  | .loadStr | .getGlobal => [registerText i.dest, symbolText i.imm]
  | .arith => [registerText i.dest, registerText i.src1, registerText i.src2]
  | .setGlobal => [symbolText i.imm, registerText i.src1]
  | .call => [registerText i.dest, symbolText i.imm, registerText i.src1, toString i.mode.toNat]
  | .define => [symbolText i.imm, "child" ++ toString i.mode.toNat]
  | .jump => [toString i.imm.toInt]
  | .jumpIf | .jumpUnless => [registerText i.src1, toString i.imm.toInt]
  | .raise | .ret => [registerText i.src1]

/-- The mnemonic as it is written: an arithmetic instruction shows its operation. -/
def mnemonicText (i : Instruction) : String :=
  match i.opcode with
  | .arith => arithText i.mode
  | op => op.mnemonic

def text (i : Instruction) : String :=
  match i.operandTexts with
  | [] => i.mnemonicText
  | operands => i.mnemonicText ++ " " ++ String.intercalate ", " operands

end ModuleHost.Instruction
