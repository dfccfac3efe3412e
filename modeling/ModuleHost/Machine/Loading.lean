import ModuleHost.Bytecode.Writer
import ModuleHost.Machine.State

/-!
# Loading modules

A load begins by finding the file and reading its units, which may fail at once, and goes on by
running the first unit above a `Load` on the stack.  Whatever becomes of that run, the end of the
load gives back the arena, removes the temporary file and settles the ledger.
-/

namespace ModuleHost.Machine

/-! ### The end of a load -/

def removeArtifact (m : Machine) (l : Load) : Machine :=
  match l.artifact with
  | some a => { m with world := m.world.removeArtifact a }
  | none => m

/-- What every load gives back at its end. -/
def release (m : Machine) (l : Load) : Machine :=
  { m with host := m.host.restoreArena l.arenaMark }.removeArtifact l

def mapLedger (m : Machine) (change : Ledger → Ledger) : Machine :=
  { m with host := { m.host with ledger := change m.host.ledger } }

def finishLoad (m : Machine) (l : Load) : Machine :=
  let m := m.release l
  let m := match l.key with
    | some key => m.mapLedger (·.markLoaded key)
    | none => m
  { m with control := .returning (.bool true) }

/-- A load has failed.  Its key is forgotten if it may be required again. -/
def failLoad (m : Machine) (l : Load) (e : LoadError) : Machine :=
  let m := m.release l
  let m := match l.key with
    | some key => if m.host.config.retryFailed then m.mapLedger (·.markFailed key) else m
    | none => m
  { m with control := .failing e }

/-! ### The loaders -/

def streamOf : Entry → Except Bytecode.StreamFault (List UInt8)
  | .file contents => .ok contents
  | _ => .error .isDirectory

/-- Reads units and runs the first of them.  The units are attributed to the file `attribution`, and
a halt at the end of the first one becomes a return, so that it hands control back. -/
def loadStream (m : Machine) (l : Load) (path attribution : String)
    (stream : Except Bytecode.StreamFault (List UInt8)) : Machine :=
  let (result, host) := m.host.readUnits stream
  let host := host.restoreArena l.arenaMark
  match result with
  | .ok root =>
    let host := (host.attributeFrom root (some attribution)).modifyUnit root CodeUnit.finalize
    ({ m with host }.push (.load l)).enterTopLevel root
  | .error e =>
    match host.pending with
    | some exception =>
      { m with host := { host with pending := none } }.failLoad l (.raised exception)
    | none => { m with host }.failLoad l (.unreadable path (.bytecode e))

def loadBytecode (m : Machine) (l : Load) (path attribution : String) : Machine :=
  match m.world.files.openEntry m.world.cwd path with
  | .ok entry => m.loadStream l path attribution (streamOf entry)
  | .error e => m.failLoad l (.unreadable path (.file e))

/-- Loads the units that a source was compiled to: they are written to the temporary file of the
load and read back from it. -/
def loadCompiledUnits (m : Machine) (l : Load) (path : String) (units : List CodeUnit) : Machine :=
  match l.artifact, Bytecode.write? units with
  | some a, some bytes =>
    let world := m.world.writeArtifact a bytes
    let stream := match world.files.entryAt? a.location with
      | some entry => streamOf entry
      | none => .error .ended
    { m with world }.loadStream l a.path path stream
  | _, _ => m.failLoad l (.unreadable path .tooLarge)

/-- Compiles a source and loads the result.  A compiler that runs what it compiles does so in a host
of its own. -/
def compileAndLoad (m : Machine) (l : Load) (path source : String) : Machine :=
  match Assembly.assemble source path with
  | .error e => m.failLoad l (.uncompiled path e.message)
  | .ok units =>
    if m.host.compiler.executes .declare then
      ({ m with host := m.host.isolated.appendUnits units }.push
        (.compilation { load := l, path, outer := m.host })).enterTopLevel 0
    else m.loadCompiledUnits l path units

def loadSource (m : Machine) (l : Load) (path : String) : Machine :=
  match m.world.readText path with
  | .error e => m.failLoad l (.unreadable path (.file e))
  | .ok source =>
    match m.world.createArtifact m.host.config with
    | (.error e, world) => { m with world }.failLoad l (.unreadable path (.file e))
    | (.ok artifact, world) =>
      { m with world }.compileAndLoad { l with artifact := some artifact } path source

/-- Loads the shared library at `path`, which no file that is looked at here can be. -/
def loadNative (m : Machine) (l : Load) (path : String) : Machine :=
  let size := match m.world.files.contentsOf m.world.cwd path with
    | .ok contents => contents.length
    | .error _ => 0
  m.failLoad l (.native path (if size < 64 then .tooShort else .invalidHeader))

/-- Hands the file at `path` to the loader for its kind. -/
def dispatch (m : Machine) (l : Load) (path : String) : Machine :=
  match ModuleKind.ofPath path with
  | .error reason => m.failLoad l (.unknownKind path reason)
  | .ok .compiled => m.loadBytecode l path path
  | .ok .source => m.loadSource l path
  | .ok .native => m.loadNative l path

/-! ### Loading by name -/

def newLoad (m : Machine) (key : Option String) : Load := { arenaMark := m.host.arena.length, key }

/-- Resolves `name` and runs the module, whether or not it has been loaded. -/
def load (m : Machine) (name : String) : Machine :=
  match m.world.resolve m.host.searchPath name with
  | .error e => { m with control := .failing e }
  | .ok path => m.dispatch (m.newLoad none) path

/-- Resolves `name` and runs the module, unless it has been loaded or is being loaded. -/
def require (m : Machine) (name : String) : Machine :=
  match m.world.resolve m.host.searchPath name with
  | .error e => { m with control := .failing e }
  | .ok path =>
    match m.host.ledger.begin? path with
    | none => { m with control := .returning (.bool false) }
    | some ledger =>
      let m := m.mapLedger fun _ => ledger
      m.dispatch (m.newLoad (some path)) path

end ModuleHost.Machine
