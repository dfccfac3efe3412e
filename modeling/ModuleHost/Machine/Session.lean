import ModuleHost.Machine.Step

/-!
# Working with a host

What can be asked of a host from outside: to invoke a unit, to load a module, to call a builtin, to
compile a source.  Each request starts a machine with an empty stack and runs it to its end; the end
holds the result together with the host and the world as they are then.
-/

namespace ModuleHost.Machine

def stepLimit : Nat := 0x1000000000000000

/-- A machine on which nothing waits. -/
def idle (host : Host) (world : World) : Machine := { host, world }

def invoke (host : Host) (world : World) (unit : Nat) (scope : Scope) (args : List Value)
    (receiver : Value) : Machine :=
  ((idle host world).enter unit scope args receiver).run stepLimit

def loadModule (host : Host) (world : World) (name : String) : Machine :=
  ((idle host world).load name).run stepLimit

def requireModule (host : Host) (world : World) (name : String) : Machine :=
  ((idle host world).require name).run stepLimit

def invokeBuiltin (host : Host) (world : World) (b : Builtin) (args : List Value) : Machine :=
  ((idle host world).callBuiltin b args).run stepLimit

def loadBytecodeFile (host : Host) (world : World) (path attribution : String) : Machine :=
  let m := idle host world
  (m.loadBytecode (m.newLoad none) path attribution).run stepLimit

def loadSourceFile (host : Host) (world : World) (path : String) : Machine :=
  let m := idle host world
  (m.loadSource (m.newLoad none) path).run stepLimit

/-- Compiles a source into the host itself and gives the index of the first unit with the machine
that runs it, if the compiler does. -/
def compile (host : Host) (world : World) (source filename : String) (mode : CompileMode) :
    Except Assembly.Error (Nat × Machine) := do
  let units ← Assembly.assemble source filename
  let root := host.units.length
  let m := idle (host.appendUnits units) world
  return (root, if host.compiler.executes mode then (m.enterTopLevel root).run stepLimit else m)

/-! ### Results -/

/-- What an invocation has come to. -/
def value? (m : Machine) : Option (Except Exception Value) :=
  match m.control with
  | .returning value => some (.ok value)
  | .raising e => some (.error e)
  | .failing e => some (.error e.toException)
  | _ => none

/-- What a load has come to: whether the module was run now. -/
def loaded? (m : Machine) : Option (Except LoadError Bool) :=
  match m.control with
  | .returning value => some (.ok (value = .bool true))
  | .failing e => some (.error e)
  | .raising e => some (.error (.raised e))
  | _ => none

end ModuleHost.Machine
