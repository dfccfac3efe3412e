import ModuleHost.Bytecode.Basic
import ModuleHost.Bytes
import ModuleHost.CodeUnit
import ModuleHost.Instruction.Encoding

/-!
# Reading bytecode

A reader takes what it needs from the front of a stream and hands on the rest.  Units are read all
or none, and bytes after the last unit are left alone.
-/

namespace ModuleHost.Bytecode

/-- Takes a value from the front of a stream. -/
abbrev Reader (α : Type) := StateT (List UInt8) (Except DecodeError) α

namespace Reader

def bytes (n : Nat) : Reader (List UInt8) := fun input =>
  let head := input.take n
  if head.length = n then .ok (head, input.drop n) else .error (.stream .ended)

def number (width : Nat) : Reader Nat := do
  return Bytes.ofLittleEndian (← bytes width)

def length : Reader Nat := do
  let n ← number 4
  if n > maxLength then throw (.tooLarge n)
  return n

/-- A string: its length, then its bytes. -/
def text : Reader String := do
  match Bytes.toText? (← bytes (← length)) with
  | some s => return s
  | none => throw .invalidUtf8

/-- The values that `item` takes at the positions from `start`, `count` of them. -/
def repeated {α : Type} (item : Nat → Reader α) : (start count : Nat) → Reader (List α)
  | _, 0 => return []
  | start, count + 1 => do
    let first ← item start
    return first :: (← repeated item (start + 1) count)

def table {α : Type} (item : Nat → Reader α) : Reader (List α) := do
  repeated item 0 (← length)

def instruction (unit position : Nat) : Reader Instruction := do
  match Instruction.decode? (← bytes Instruction.encodedSize) with
  | some i => return i
  | none => throw (.invalidInstruction unit position)

/-- A child offset of the unit `unit`, which leads to a later one of the `total` units. -/
def child (total unit : Nat) : Reader UInt32 := do
  let offset ← number 4
  if offset = 0 ∨ unit + offset ≥ total then throw (.invalidChild unit offset)
  return UInt32.ofNat offset

def unit (total unit : Nat) : Reader CodeUnit := do
  let filename ← text
  let instructions ← table (instruction unit)
  let lines ← repeated (fun _ => number 4) 0 instructions.length
  let symbols ← table fun _ => text
  let children ← table fun _ => child total unit
  return {
    filename := if filename.isEmpty then none else some filename
    instructions, symbols, children
    lines := lines.map UInt32.ofNat }

def units : Reader (List CodeUnit) := do
  if (← bytes magic.length) ≠ magic then throw .badMagic
  let found ← number 2
  if found ≠ version then throw (.unsupportedVersion found)
  let total ← length
  if total = 0 then throw .empty
  repeated (unit total) 0 total

end Reader

/-- The units of a stream; bytes after the last one are left out of account. -/
def read (stream : List UInt8) : Except DecodeError (List CodeUnit) :=
  (Reader.units.run stream).map (·.1)

/-- The units of a stream that may not be there to be read. -/
def readStream : Except StreamFault (List UInt8) → Except DecodeError (List CodeUnit)
  | .ok bytes => read bytes
  | .error fault => .error (.stream fault)

end ModuleHost.Bytecode
