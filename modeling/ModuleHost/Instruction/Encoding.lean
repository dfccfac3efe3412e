import ModuleHost.Bytes
import ModuleHost.Instruction.Basic

/-!
# Encoded instructions

An instruction is eight bytes: two 32-bit words, least significant byte first.  The first word
holds, from its highest bit down, the operation in six bits, the three registers in five bits each,
the mode in eight bits and three spare bits; the second word is the immediate.  Encoding clears the
spare bits and drops the high bits of a register, decoding ignores the spare bits and whatever
follows the eight bytes.
-/

namespace ModuleHost.Instruction

def encodedSize : Nat := 8

/-- The first word: all fields but the immediate. -/
def fieldWord (i : Instruction) : Nat :=
  i.opcode.code * 0x4000000 + i.dest.toNat % 32 * 0x200000 + i.src1.toNat % 32 * 0x10000
    + i.src2.toNat % 32 * 0x800 + i.mode.toNat * 8

def encode (i : Instruction) : List UInt8 :=
  Bytes.littleEndian 4 i.fieldWord ++ Bytes.littleEndian 4 i.imm.toUInt32.toNat

def ofWords? (fields imm : Nat) : Option Instruction :=
  (Opcode.ofCode? (fields / 0x4000000 % 64)).map fun opcode =>
    { opcode
      dest := UInt8.ofNat (fields / 0x200000 % 32)
      src1 := UInt8.ofNat (fields / 0x10000 % 32)
      src2 := UInt8.ofNat (fields / 0x800 % 32)
      mode := UInt8.ofNat (fields / 8 % 256)
      imm := (UInt32.ofNat imm).toInt32 }

/-- Reads the first eight bytes; `none` if there are fewer or they name no operation. -/
def decode? (bytes : List UInt8) : Option Instruction :=
  if bytes.length < encodedSize then none
  else ofWords? (Bytes.ofLittleEndian (bytes.take 4))
    (Bytes.ofLittleEndian ((bytes.drop 4).take 4))

@[simp] theorem length_encode (i : Instruction) : i.encode.length = encodedSize := by
  simp [encode, encodedSize]

end ModuleHost.Instruction
