/-!
# Faults in source text

Why a source was refused: a fault, and the line where it stands.
-/

namespace ModuleHost.Assembly

inductive Fault where
  /-- The first word of a statement is no mnemonic and no directive. -/
  | invalidOpcode (mnemonic : String)
  | invalidRegister (operand : String)
  | invalidImmediate (operand : String)
  | missingOperand
  | undefinedLabel (label : String)
  | duplicateLabel (label : String)
  /-- A function starts inside a function. -/
  | nestedFunction
  | tooManyFunctions
  /-- A function ends where none has started. -/
  | endWithoutFunction
  /-- The source ends inside a function. -/
  | unterminatedFunction (name : String)
  /-- The arguments of a call reach past the last register. -/
  | argumentsOutOfRange (first count : Nat)
  /-- A statement ends inside a string literal. -/
  | unterminatedString
  | notAString (operand : String)
  | unknownEscape (escaped : Char)
  | invalidName (operand : String)
deriving DecidableEq, Repr

/-- A fault and its line; lines are counted from 1. -/
structure Error where
  line : Nat
  fault : Fault
deriving DecidableEq, Repr

/-- What is said of a fault that has no class of its own, `none` for the others. -/
def Fault.parseMessage? : Fault → Option String
  | nestedFunction => some "nested .def"
  | tooManyFunctions => some "too many functions in one file"
  | endWithoutFunction => some ".end without .def"
  | unterminatedFunction name => some ("unterminated .def " ++ name)
  | argumentsOutOfRange first count =>
    some ("arguments r" ++ toString first ++ "..+" ++ toString count
      ++ " exceed the register file")
  | unterminatedString => some "unterminated string literal"
  | notAString operand => some ("expected string literal, found " ++ operand)
  | unknownEscape escaped => some ("unknown escape \\" ++ escaped.toString)
  | invalidName operand => some ("invalid name: " ++ operand)
  | _ => none

def Error.message (e : Error) : String :=
  let at_ (what : String) := what ++ " at line " ++ toString e.line
  match e.fault with
  | .invalidOpcode mnemonic => at_ "Invalid opcode" ++ ": " ++ mnemonic
  | .invalidRegister operand => at_ "Invalid register" ++ ": " ++ operand
  | .invalidImmediate operand => at_ "Invalid immediate value" ++ ": " ++ operand
  | .missingOperand => at_ "Missing operand"
  | .undefinedLabel label => at_ "Undefined label" ++ ": " ++ label
  | .duplicateLabel label => at_ "Duplicate label" ++ ": " ++ label
  | fault => at_ "Parse error" ++ ": " ++ fault.parseMessage?.getD ""

end ModuleHost.Assembly
