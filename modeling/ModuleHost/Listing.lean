import ModuleHost.CodeUnit
import ModuleHost.Instruction.Listing
import ModuleHost.Text.Numeral
import ModuleHost.Text.Quoted

/-!
# Listings

A listing shows units as text: a heading with the position and the file of each unit, then its
instructions, one per line, with their positions, their source lines if these are wanted, and the
quoted symbol behind each operand that names one.
-/

namespace ModuleHost.Listing

def heading (index : Nat) (u : CodeUnit) : String :=
  "; unit " ++ toString index ++ " (" ++ u.filename.getD "-" ++ ")\n"

def symbolComment (u : CodeUnit) (i : Instruction) : String :=
  if i.opcode.hasSymbolOperand then
    match u.symbol? i.imm with
    | some symbol => "  ; " ++ Instruction.symbolText i.imm ++ " = " ++ Text.quote symbol
    | none => ""
  else ""

def instructionLine (showLines : Bool) (u : CodeUnit) (position : Nat) (i : Instruction) :
    String :=
  let numbers := Text.padStart 4 (toString position)
    ++ if showLines then " " ++ Text.padStart 4 (toString (u.lineAt position).toNat) else ""
  numbers ++ "  " ++ i.text ++ symbolComment u i ++ "\n"

def ofUnit (showLines : Bool) (u : CodeUnit) : String :=
  String.join (u.instructions.mapIdx (instructionLine showLines u))

def ofUnits (showLines : Bool) (units : List CodeUnit) : String :=
  String.join (units.mapIdx fun index u => heading index u ++ ofUnit showLines u)

end ModuleHost.Listing
