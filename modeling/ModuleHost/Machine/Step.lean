import ModuleHost.Machine.Arithmetic
import ModuleHost.Machine.Loading

/-!
# Steps

One step of the machine executes one instruction, or hands a result to what waits for it.
-/

namespace ModuleHost.Machine

/-! ### Executing an instruction -/

/-- An exception leaves the frame that was running: it gets an entry that says where the frame
was. -/
def raiseIn (m : Machine) (f : Frame) (e : Exception) : Machine :=
  { m with
    host := m.host.leaveFrame
    control := .raising (e.leaving (f.location m.host.units)) }

def returnFrom (m : Machine) (value : Value) : Machine :=
  { m with host := m.host.leaveFrame, control := .returning value }

def continueWith (m : Machine) (f : Frame) : Machine := { m with control := .running f }

/-- Sets a register and goes on with the next instruction. -/
def assign? (m : Machine) (f : Frame) (dest : UInt8) (value : Value) : Option Machine :=
  (f.write? dest value).map fun f => m.continueWith f.advance

def jump (m : Machine) (f : Frame) (target : Int32) : Machine :=
  if target < 0 then
    m.raiseIn f (.runtimeError ("invalid jump target " ++ toString target.toInt))
  else m.continueWith (f.jumpTo target.toInt.toNat)

/-- The only argument of a builtin that takes a name. -/
def nameArgument : List Value → Except Exception String
  | [.str name] => .ok name
  | [value] => .error (.typeError ("can't convert " ++ value.typeName ++ " into String"))
  | args => .error (.argumentError
      ("wrong number of arguments (given " ++ toString args.length ++ ", expected 1)"))

def withName (m : Machine) (args : List Value) (run : String → Machine) : Machine :=
  match nameArgument args with
  | .ok name => run name
  | .error e => { m with control := .raising e }

def callBuiltin (m : Machine) (b : Builtin) (args : List Value) : Machine :=
  match b with
  | .print =>
    { m with
      host := m.host.printLine (String.intercalate " " (args.map Value.text))
      control := .returning .nil }
  | .load => m.withName args m.load
  | .require => m.withName args m.require
  | .addLoadPath => m.withName args fun dir =>
      { m with
        host := { m.host with searchPath := m.host.searchPath.push dir }
        control := .returning .nil }

/-- Calls the function or the builtin `name`; functions come first. -/
def callByName (m : Machine) (f : Frame) (dest : UInt8) (name : String) (args : List Value) :
    Machine :=
  match m.host.functions.get? name with
  | some unit => (m.push (.call f dest)).enter unit (.function name) args f.receiver
  | none =>
    match m.host.builtin? name with
    | some b => (m.push (.call f dest)).callBuiltin b args
    | none => m.raiseIn f (.undefinedMethod name f.receiver.text)

def withSymbol (m : Machine) (f : Frame) (u : CodeUnit) (i : Instruction)
    (run : String → Option Machine) : Option Machine :=
  match u.symbol? i.imm with
  | some symbol => run symbol
  | none => some (m.raiseIn f (.runtimeError ("invalid symbol index " ++ toString i.imm.toInt)))

/-- Executes the instruction `i` of the unit `u` in the frame `f`; `none` if a register that it
names does not exist. -/
def execute? (m : Machine) (f : Frame) (u : CodeUnit) (i : Instruction) : Option Machine :=
  match i.opcode with
  | .nop => some (m.continueWith f.advance)
  | .mov => do m.assign? f i.dest (← f.read? i.src1)
  | .loadInt => m.assign? f i.dest (.int (Int64.ofInt i.imm.toInt))
  | .loadNil => m.assign? f i.dest .nil
  | .loadBool => m.assign? f i.dest (.bool (i.imm ≠ 0))
  | .loadStr => m.withSymbol f u i fun text =>
      { m with host := m.host.pushArena [.str text] }.assign? f i.dest (.str text)
  | .loadSelf => m.assign? f i.dest f.receiver
  | .arith =>
    match ArithOp.ofCode? i.mode with
    | none => some (m.raiseIn f (.runtimeError ("invalid ALU mode " ++ toString i.mode.toNat)))
    | some op => do
      let a ← f.read? i.src1
      let b ← f.read? i.src2
      match op.result? a b with
      | some value => m.assign? f i.dest value
      | none => some (m.raiseIn f (op.unsupported a b))
  | .getGlobal => m.withSymbol f u i fun name =>
      m.assign? f i.dest ((m.host.globals.get? name).getD .nil)
  | .setGlobal => m.withSymbol f u i fun name => do
      let value ← f.read? i.src1
      some ({ m with host := m.host.setGlobal name value }.continueWith f.advance)
  | .call => m.withSymbol f u i fun name =>
      let first := i.src1.toNat
      let count := i.mode.toNat
      match f.window? first count with
      | some args => some (m.callByName f i.dest name args)
      | none => some (m.raiseIn f (.runtimeError ("call arguments r" ++ toString first ++ "..r"
          ++ toString (first + count) ++ " out of range")))
  | .define => m.withSymbol f u i fun name =>
      match u.children[i.mode.toNat]? with
      | some offset =>
        some ({ m with host := m.host.defineFunction name (f.unit + offset.toNat) }.continueWith
          f.advance)
      | none => some (m.raiseIn f (.runtimeError ("missing child unit for '" ++ name ++ "'")))
  | .jump => some (m.jump f i.imm)
  | .jumpIf => do
    let value ← f.read? i.src1
    some (if value.isTruthy then m.jump f i.imm else m.continueWith f.advance)
  | .jumpUnless => do
    let value ← f.read? i.src1
    some (if value.isTruthy then m.continueWith f.advance else m.jump f i.imm)
  | .raise => do
    let value ← f.read? i.src1
    some (m.raiseIn f (.runtimeError value.text))
  | .ret => do
    let value ← f.read? i.src1
    some (m.returnFrom value)
  | .halt => some ({ m with host := { m.host with halted := true } }.returnFrom .nil)

/-- Executes the next instruction of the running frame.  A frame without a unit raises an exception
without an entry of its own, and a frame whose instructions have come to an end returns nil. -/
def fetch (m : Machine) (f : Frame) : Machine :=
  match m.host.units[f.unit]? with
  | none =>
    { m with
      host := m.host.leaveFrame
      control := .raising (.runtimeError ("no unit at index " ++ toString f.unit)) }
  | some u =>
    match u.instructions[f.position]? with
    | none => m.returnFrom .nil
    | some i => (m.execute? f u i).getD { m with control := .stuck }

/-! ### Handing on a result -/

/-- A waiting frame gets the value of its call.  When the host has halted it returns nil instead. -/
def resume (m : Machine) (f : Frame) (dest : UInt8) (value : Value) : Machine :=
  if m.host.halted then m.returnFrom .nil
  else (m.assign? f dest value).getD { m with control := .stuck }

/-- The code of a compilation has ended: the waiting host goes on with the units. -/
def finishCompilation (m : Machine) (c : Compilation) : Machine :=
  { m with host := c.outer }.loadCompiledUnits c.load c.path m.host.units

def failCompilation (m : Machine) (c : Compilation) (e : Exception) : Machine :=
  { m with host := c.outer }.failLoad c.load (.uncompiled c.path e.text)

def returnTo (m : Machine) (value : Value) : Activation → Machine
  | .call f dest => m.resume f dest value
  | .load l => m.finishLoad l
  | .compilation c => m.finishCompilation c

def raiseTo (m : Machine) (e : Exception) : Activation → Machine
  | .call f _ => m.raiseIn f e
  | .load l => m.failLoad l (.raised e)
  | .compilation c => m.failCompilation c e

/-- One step.  A machine without a running frame on which nothing waits has come to its end. -/
def step (m : Machine) : Machine :=
  match m.control, m.stack with
  | .running f, _ => m.fetch f
  | .returning value, a :: stack => { m with stack }.returnTo value a
  | .raising e, a :: stack => { m with stack }.raiseTo e a
  | .failing e, a :: stack => { m with stack }.raiseTo e.toException a
  | _, _ => m

def isDone (m : Machine) : Bool :=
  match m.control with
  | .running _ => false
  | .stuck => true
  | _ => m.stack.isEmpty

/-- Takes steps until the machine has come to its end, at most `limit` of them. -/
def run : (limit : Nat) → Machine → Machine
  | 0, m => m
  | limit + 1, m => if m.isDone then m else run limit m.step

end ModuleHost.Machine
