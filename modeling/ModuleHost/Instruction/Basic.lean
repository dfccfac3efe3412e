/-!
# Instructions

The register machine has eighteen operations.  Every instruction carries the same fields, whatever
its operation: a destination register, two source registers, a mode and a signed 32-bit immediate.
The mode is the arithmetic operation, an argument count or a child number; the immediate is a
number, a jump target or an index into the symbols of the unit that holds the instruction.
-/

namespace ModuleHost

/-- The registers of a frame are numbered from 0 to 31. -/
def registerCount : Nat := 32

inductive Opcode where
  /-- Nothing happens. -/
  | nop
  /-- Copies a register. -/
  | mov
  /-- Loads the immediate as an integer. -/
  | loadInt
  /-- Loads nil. -/
  | loadNil
  /-- Loads true for every immediate but 0. -/
  | loadBool
  /-- Loads a symbol as a string. -/
  | loadStr
  /-- Loads the receiver of the frame. -/
  | loadSelf
  /-- Combines two registers by the arithmetic operation in the mode. -/
  | arith
  /-- Loads a global variable. -/
  | getGlobal
  /-- Stores a global variable. -/
  | setGlobal
  /-- Calls a function by name with a window of registers, as many as the mode says. -/
  | call
  /-- Binds a name to the child unit in the mode. -/
  | define
  /-- Continues at the immediate. -/
  | jump
  /-- Continues at the immediate if the first source is truthy. -/
  | jumpIf
  /-- Continues at the immediate if the first source is falsy. -/
  | jumpUnless
  /-- Raises the first source. -/
  | raise
  /-- Returns the first source. -/
  | ret
  /-- Stops the host. -/
  | halt
deriving DecidableEq, Repr, Inhabited

namespace Opcode

def all : List Opcode :=
  [nop, mov, loadInt, loadNil, loadBool, loadStr, loadSelf, arith, getGlobal, setGlobal, call,
    define, jump, jumpIf, jumpUnless, raise, ret, halt]

def code : Opcode → Nat
  | nop => 0
  | mov => 1
  | loadInt => 2
  | loadNil => 3
  | loadBool => 4
  | loadStr => 5
  | loadSelf => 6
  | arith => 7
  | getGlobal => 8
  | setGlobal => 9
  | call => 10
  | define => 11
  | jump => 12
  | jumpIf => 13
  | jumpUnless => 14
  | raise => 15
  | ret => 16
  | halt => 17

def ofCode? (n : Nat) : Option Opcode := all[n]?

theorem ofCode?_code (op : Opcode) : ofCode? op.code = some op := by
  cases op <;> rfl

theorem code_lt (op : Opcode) : op.code < 18 := by
  cases op <;> decide

theorem code_of_ofCode? {n : Nat} {op : Opcode} (h : ofCode? n = some op) : op.code = n := by
  match n, h with
  | 0, h | 1, h | 2, h | 3, h | 4, h | 5, h | 6, h | 7, h | 8, h | 9, h | 10, h | 11, h | 12, h
  | 13, h | 14, h | 15, h | 16, h | 17, h => cases h; rfl
  | _ + 18, h => cases h

def mnemonic : Opcode → String
  | nop => "nop"
  | mov => "mov"
  | loadInt => "int"
  | loadNil => "nil"
  | loadBool => "bool"
  | loadStr => "str"
  | loadSelf => "self"
  | arith => "alu"
  | getGlobal => "gget"
  | setGlobal => "gset"
  | call => "call"
  | define => "def"
  | jump => "jmp"
  | jumpIf => "jt"
  | jumpUnless => "jf"
  | raise => "raise"
  | ret => "ret"
  | halt => "halt"

/-- Whether the immediate is an index into the symbols of the unit. -/
def hasSymbolOperand : Opcode → Bool
  | loadStr | getGlobal | setGlobal | call | define => true
  | _ => false

end Opcode

/-- The arithmetic operations, by which an `Opcode.arith` combines two registers. -/
inductive ArithOp where
  | add
  | sub
  | mul
  | eq
  | lt
deriving DecidableEq, Repr, Inhabited

namespace ArithOp

def code : ArithOp → UInt8
  | add => 0
  | sub => 1
  | mul => 2
  | eq => 3
  | lt => 4

def ofCode? : UInt8 → Option ArithOp
  | 0 => some add
  | 1 => some sub
  | 2 => some mul
  | 3 => some eq
  | 4 => some lt
  | _ => none

theorem ofCode?_code (op : ArithOp) : ofCode? op.code = some op := by
  cases op <;> rfl

def mnemonic : ArithOp → String
  | add => "add"
  | sub => "sub"
  | mul => "mul"
  | eq => "eq"
  | lt => "lt"

end ArithOp

/-- One instruction.  A field that the operation does not use is kept all the same. -/
structure Instruction where
  opcode : Opcode
  /-- Destination register. -/
  dest : UInt8 := 0
  /-- First source register. -/
  src1 : UInt8 := 0
  /-- Second source register. -/
  src2 : UInt8 := 0
  /-- Arithmetic operation, argument count or child number. -/
  mode : UInt8 := 0
  /-- Literal, jump target or symbol index. -/
  imm : Int32 := 0
deriving DecidableEq, Repr, Inhabited

namespace Instruction

def maskRegisters (i : Instruction) : Instruction :=
  { i with dest := i.dest % 32, src1 := i.src1 % 32, src2 := i.src2 % 32 }

def RegistersValid (i : Instruction) : Prop :=
  i.dest < 32 ∧ i.src1 < 32 ∧ i.src2 < 32

instance (i : Instruction) : Decidable i.RegistersValid :=
  inferInstanceAs (Decidable (_ ∧ _))

end Instruction

end ModuleHost
