import ModuleHost.Exception
import ModuleHost.Instruction.Basic
import ModuleHost.Value

/-!
# Arithmetic

Integers have 64 bits and wrap around.  Sums are also defined of strings, equality of all values.
-/

namespace ModuleHost.ArithOp

/-- The result of the operation, if it is defined of the operands. -/
def result? : ArithOp → Value → Value → Option Value
  | eq, a, b => some (.bool (a = b))
  | add, .int a, .int b => some (.int (a + b))
  | sub, .int a, .int b => some (.int (a - b))
  | mul, .int a, .int b => some (.int (a * b))
  | lt, .int a, .int b => some (.bool (a < b))
  | add, .str a, .str b => some (.str (a ++ b))
  | _, _, _ => none

def unsupported (op : ArithOp) (a b : Value) : Exception :=
  .typeError (a.typeName ++ " " ++ op.mnemonic ++ " " ++ b.typeName ++ " is not supported")

end ModuleHost.ArithOp
