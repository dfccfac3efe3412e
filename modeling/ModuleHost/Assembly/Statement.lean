import ModuleHost.Assembly.Operand
import ModuleHost.Assembly.Quoting
import ModuleHost.Text.Blank

/-!
# Statements

What one line of source says once its comment and the blanks around it are gone: nothing, the start
or the end of a function, a label, or an operation.  An operation is an instruction whose immediate
may still be open: it will be the index of a symbol or the position of a label, which only the unit
around it knows.
-/

namespace ModuleHost.Assembly

/-- What the immediate of an operation stands for. -/
inductive Reference where
  /-- The immediate of the instruction as it is. -/
  | literal
  | symbol (text : String)
  | label (name : String)
deriving DecidableEq, Repr

structure Operation where
  instruction : Instruction
  reference : Reference := .literal
deriving DecidableEq, Repr

inductive Statement where
  | blank
  /-- The start of a function, with the word that should be its name. -/
  | functionStart (word? : Option (List Char))
  | functionEnd
  | label (name : String)
  | operation (op : Operation)
deriving DecidableEq, Repr

/-! ### Operations -/

/-- The first word of an operation. -/
inductive Mnemonic where
  | plain (opcode : Opcode)
  | arith (op : ArithOp)
deriving DecidableEq, Repr

namespace Mnemonic

/-- All mnemonics of source text.  Functions are bound by a directive, and arithmetic goes by the
name of its operation. -/
def all : List Mnemonic :=
  (Opcode.all.filter fun op => op ≠ .define ∧ op ≠ .arith).map plain
    ++ [.add, .sub, .mul, .eq, .lt].map arith

def text : Mnemonic → String
  | plain opcode => opcode.mnemonic
  | arith op => op.mnemonic

/-- The mnemonic that `word` spells in either case. -/
def ofWord? (word : List Char) : Option Mnemonic :=
  all.find? fun m => m.text.toList = word.map Char.toLower

end Mnemonic

def operandAt (operands : List (List Char)) (position : Nat) : Except Fault (List Char) :=
  match operands[position]? with
  | some operand => .ok operand
  | none => .error .missingOperand

/-- A call: the destination, the name, then the first argument register and the number of
arguments, which may be left out.  Without a number there is one argument if there is a register. -/
def callOperation (operands : List (List Char)) : Except Fault Operation := do
  let dest ← register (← operandAt operands 0)
  let function ← name (← operandAt operands 1)
  let first? ← operands[2]?.mapM register
  let count ← match operands[3]? with
    | some operand => argumentCount operand
    | none => pure (if first?.isSome then 1 else 0)
  let first := first?.getD 0
  if first.toNat + count.toNat > registerCount then
    throw (.argumentsOutOfRange first.toNat count.toNat)
  return {
    instruction := { opcode := .call, dest, src1 := first, mode := count }
    reference := .symbol function }

/-- The operation with the given mnemonic and operands; operands beyond those that the mnemonic
takes are not looked at. -/
def operationOf (mnemonic : Mnemonic) (operands : List (List Char)) : Except Fault Operation := do
  match mnemonic with
  | .arith op =>
    let dest ← register (← operandAt operands 0)
    let src1 ← register (← operandAt operands 1)
    let src2 ← register (← operandAt operands 2)
    return { instruction := { opcode := .arith, dest, src1, src2, mode := op.code } }
  | .plain opcode =>
    match opcode with
    | .mov =>
      let dest ← register (← operandAt operands 0)
      let src1 ← register (← operandAt operands 1)
      return { instruction := { opcode, dest, src1 } }
    | .loadInt =>
      let dest ← register (← operandAt operands 0)
      let imm ← immediate (← operandAt operands 1)
      return { instruction := { opcode, dest, imm } }
    | .loadNil | .loadSelf =>
      let dest ← register (← operandAt operands 0)
      return { instruction := { opcode, dest } }
    | .loadBool =>
      let dest ← register (← operandAt operands 0)
      let imm ← truthValue (← operandAt operands 1)
      return { instruction := { opcode, dest, imm } }
    | .loadStr =>
      let dest ← register (← operandAt operands 0)
      let text ← stringLiteral (← operandAt operands 1)
      return { instruction := { opcode, dest }, reference := .symbol text }
    | .getGlobal =>
      let dest ← register (← operandAt operands 0)
      let global ← name (← operandAt operands 1)
      return { instruction := { opcode, dest }, reference := .symbol global }
    | .setGlobal =>
      let global ← name (← operandAt operands 0)
      let src1 ← register (← operandAt operands 1)
      return { instruction := { opcode, src1 }, reference := .symbol global }
    | .call => callOperation operands
    | .jump =>
      let label ← name (← operandAt operands 0)
      return { instruction := { opcode }, reference := .label label }
    | .jumpIf | .jumpUnless =>
      let src1 ← register (← operandAt operands 0)
      let label ← name (← operandAt operands 1)
      return { instruction := { opcode, src1 }, reference := .label label }
    | .raise =>
      let src1 ← register (← operandAt operands 0)
      return { instruction := { opcode, src1 } }
    | .ret =>
      let src1 ← match operands.head? with
        | some operand => register operand
        | none => pure 0
      return { instruction := { opcode, src1 } }
    | .nop | .halt | .arith | .define => return { instruction := { opcode } }

/-- The operands in the text behind a mnemonic: the trimmed pieces between commas. -/
def operandsOf (text : List Char) : Except Fault (List (List Char)) :=
  if text.isEmpty then .ok []
  else match commaPieces? .outside text with
    | some pieces => .ok (pieces.map Text.trim)
    | none => .error .unterminatedString

def operationOfLine (line : List Char) : Except Fault Operation := do
  let (word, rest) := Text.cutAtBlank line
  let operands ← operandsOf (Text.trim rest)
  match Mnemonic.ofWord? word with
  | some mnemonic => operationOf mnemonic operands
  | none => throw (.invalidOpcode (String.ofList word))

/-! ### Lines -/

/-- The name of the label that a trimmed line defines: a name with a colon behind it. -/
def labelOfLine? (line : List Char) : Option String :=
  if line.getLast? = some ':' ∧ isName line.dropLast then some (String.ofList line.dropLast)
  else none

def Statement.ofTrimmed (line : List Char) : Except Fault Statement :=
  match line with
  | [] => .ok .blank
  | '.' :: directive =>
    match Text.words directive with
    | ['d', 'e', 'f'] :: rest => .ok (.functionStart rest.head?)
    | ['e', 'n', 'd'] :: _ => .ok .functionEnd
    | _ => .error (.invalidOpcode (String.ofList line))
  | line =>
    match labelOfLine? line with
    | some defined => .ok (.label defined)
    | none => (operationOfLine line).map .operation

def Statement.ofLine (line : List Char) : Except Fault Statement :=
  ofTrimmed (Text.trim (beforeComment .outside line))

end ModuleHost.Assembly
