import ModuleHost.Assembly.Statement
import ModuleHost.CodeUnit

/-!
# Units under construction

A draft collects the operations and the labels of one unit.  Symbols get their index when they are
first named; jumps are left open until the unit is complete, when all labels have their positions.
-/

namespace ModuleHost.Assembly

/-- A jump whose target is still open. -/
structure OpenJump where
  /-- The position of the jump in its unit. -/
  position : Nat
  label : String
  line : Nat
deriving DecidableEq, Repr

/-- A unit under construction. -/
structure Draft where
  unit : CodeUnit
  /-- Each label with the number of instructions before it. -/
  labels : List (String × Nat) := []
  jumps : List OpenJump := []
  /-- The name of the function; `none` for the top level. -/
  function : Option String := none
  /-- The line of the last operation or label, 0 before the first one. -/
  lastLine : Nat := 0
deriving DecidableEq, Repr

namespace Draft

def start (filename : String) (function : Option String) : Draft :=
  { unit := { filename := some filename }, function }

def emit (d : Draft) (i : Instruction) (line : Nat) : Draft :=
  { d with unit := d.unit.push i (UInt32.ofNat line), lastLine := line }

/-- Appends an instruction whose immediate is the index of `symbol`. -/
def emitSymbol (d : Draft) (i : Instruction) (symbol : String) (line : Nat) : Draft :=
  let (unit, index) := d.unit.intern symbol
  { d with unit }.emit { i with imm := Int32.ofNat index } line

/-- Appends an instruction whose immediate will be the position of `label`. -/
def emitJump (d : Draft) (i : Instruction) (label : String) (line : Nat) : Draft :=
  let jump : OpenJump := { position := d.unit.instructions.length, label, line }
  ({ d with jumps := d.jumps ++ [jump] } : Draft).emit i line

def place (d : Draft) (op : Operation) (line : Nat) : Draft :=
  match op.reference with
  | .literal => d.emit op.instruction line
  | .symbol text => d.emitSymbol op.instruction text line
  | .label label => d.emitJump op.instruction label line

/-- Gives `label` the position of the next instruction. -/
def defineLabel (d : Draft) (label : String) (line : Nat) : Except Error Draft :=
  match d.labels.lookup label with
  | some _ => .error ⟨line, .duplicateLabel label⟩
  | none => .ok { d with
      labels := d.labels ++ [(label, d.unit.instructions.length)], lastLine := line }

/-- Sets the target of one jump. -/
def resolve (labels : List (String × Nat)) (u : CodeUnit) (jump : OpenJump) :
    Except Error CodeUnit :=
  match labels.lookup jump.label with
  | some target => .ok { u with
      instructions := u.instructions.modify jump.position
        fun i => { i with imm := Int32.ofNat target } }
  | none => .error ⟨jump.line, .undefinedLabel jump.label⟩

/-- The instructions that end a unit of this kind when its own instructions do not: a halt at the
top level, `nil r0` and `ret r0` in a function. -/
def closing (d : Draft) (u : CodeUnit) : List Instruction :=
  let last? := u.instructions.getLast?.map (·.opcode)
  match d.function with
  | none => if last? = some .halt then [] else [{ opcode := .halt }]
  | some _ => if last? = some .ret then [] else [{ opcode := .loadNil }, { opcode := .ret }]

def finish (d : Draft) : Except Error CodeUnit := do
  let u ← d.jumps.foldlM (resolve d.labels) d.unit
  return (d.closing u).foldl (fun u i => u.push i (UInt32.ofNat d.lastLine)) u

end Draft

end ModuleHost.Assembly
