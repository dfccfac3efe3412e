import ModuleHost.CodeUnit
import ModuleHost.Value

/-!
# Frames

A frame runs one unit.  It has registers of its own, the receiver it was called on and the position
of the instruction it executes.
-/

namespace ModuleHost

/-- What a frame runs, as backtraces show it. -/
inductive Scope where
  /-- The body of a module or a script. -/
  | topLevel
  | function (name : String)
deriving DecidableEq, Repr

def Scope.label : Scope → String
  | topLevel => "<main>"
  | function name => name

abbrev Registers := Vector Value registerCount

structure Frame where
  /-- The index of the unit. -/
  unit : Nat
  scope : Scope
  registers : Registers
  receiver : Value
  /-- The position of the instruction that is executed, or will be next. -/
  position : Nat := 0
deriving DecidableEq

namespace Frame

/-- The registers of a new frame: the arguments from register 1 on, as many as there is room for,
and nil in the others. -/
def initialRegisters (args : List Value) : Registers :=
  Vector.ofFn fun r => if r.val = 0 then .nil else (args[r.val - 1]?).getD .nil

def start (unit : Nat) (scope : Scope) (args : List Value) (receiver : Value) : Frame :=
  { unit, scope, registers := initialRegisters args, receiver }

def read? (f : Frame) (r : UInt8) : Option Value := f.registers[r.toNat]?

def write? (f : Frame) (r : UInt8) (value : Value) : Option Frame :=
  if h : r.toNat < registerCount then
    some { f with registers := f.registers.set r.toNat value h }
  else none

/-- The values of `count` registers from `first` on, if they all exist. -/
def window? (f : Frame) (first count : Nat) : Option (List Value) :=
  if first + count ≤ registerCount then some ((f.registers.toList.drop first).take count)
  else none

def jumpTo (f : Frame) (position : Nat) : Frame := { f with position }

def advance (f : Frame) : Frame := f.jumpTo (f.position + 1)

/-- Where the frame is: file, line and scope of the instruction it executes. -/
def location (f : Frame) (units : List CodeUnit) : String :=
  let (file, line) := match units[f.unit]? with
    | some u => (u.filename.getD "-", u.lineAt f.position)
    | none => ("-", 0)
  file ++ ":" ++ toString line.toNat ++ ":in " ++ f.scope.label

end Frame

end ModuleHost
