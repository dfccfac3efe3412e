import ModuleHost.Bytecode.Basic
import ModuleHost.Bytes
import ModuleHost.CodeUnit
import ModuleHost.Instruction.Encoding

/-!
# Writing bytecode

Units are laid out as a list of fields, a field being either plain bytes or a length.  Only a length
beyond the limit cannot be written, so `write?` succeeds exactly when every length fits, and what
has been written when it fails is everything before the first length that does not.
-/

namespace ModuleHost.Bytecode

inductive Field where
  | plain (bytes : List UInt8)
  | length (n : Nat)
deriving DecidableEq, Repr

namespace Field

def fits : Field → Bool
  | plain _ => true
  | length n => n ≤ maxLength

def bytes : Field → List UInt8
  | plain bytes => bytes
  | length n => Bytes.littleEndian 4 n

def ofText (text : String) : List Field :=
  [length (Bytes.ofText text).length, plain (Bytes.ofText text)]

def ofNumber (n : UInt32) : Field := plain (Bytes.littleEndian 4 n.toNat)

def ofUnit (u : CodeUnit) : List Field :=
  ofText (u.filename.getD "")
    ++ length u.instructions.length :: u.instructions.map (fun i => plain i.encode)
    ++ u.instructionLines.map ofNumber
    ++ length u.symbols.length :: u.symbols.flatMap ofText
    ++ length u.children.length :: u.children.map ofNumber

def ofUnits (units : List CodeUnit) : List Field :=
  plain magic :: plain (Bytes.littleEndian 2 version) :: length units.length
    :: units.flatMap ofUnit

end Field

/-- The stream of `units`, the first of which is the root; `none` if a length is beyond the
limit. -/
def write? (units : List CodeUnit) : Option (List UInt8) :=
  if (Field.ofUnits units).all Field.fits then some ((Field.ofUnits units).flatMap Field.bytes)
  else none

/-- The stream of `units` up to the first length that is beyond the limit. -/
def writtenPart (units : List CodeUnit) : List UInt8 :=
  ((Field.ofUnits units).takeWhile Field.fits).flatMap Field.bytes

def tooLargeMessage : String := "table too large"

end ModuleHost.Bytecode
