import ModuleHost.CommandLine.Arguments
import ModuleHost.CommandLine.Failure
import ModuleHost.CommandLine.Usage
import ModuleHost.Config.File
import ModuleHost.Listing
import ModuleHost.Machine.Session

/-!
# Running commands

A command works on a world and leaves the world as it is then, what it printed and, if it failed, a
report.  Compiling writes one file; loading leaves the files as they are.
-/

namespace ModuleHost.CommandLine

structure Outcome where
  exitCode : Nat := 0
  printed : String := ""
  reported : String := ""
  world : World
deriving DecidableEq, Repr

namespace Outcome

def failed (world : World) (printed : String) (f : Failure) : Outcome :=
  { exitCode := 1, printed, reported := f.report, world }

end Outcome

/-! ### Files -/

def summary (units : List CodeUnit) : String :=
  "Compiled " ++ toString units.length ++ " units ("
    ++ toString (units.foldl (fun n u => n + u.instructions.length) 0) ++ " instructions)\n"

/-- Compiles the source at `input` and writes it to `output`, or else beside the source. -/
def compile (w : World) (input : String) (output : Option String) (showListing : Bool) : Outcome :=
  match w.readText input with
  | .error e => .failed w "" { text := "Failed to read input file", causes := [e.message] }
  | .ok source =>
    match Assembly.assemble source input with
    | .error e => .failed w "" { text := "Compilation failed", causes := [e.message] }
    | .ok units =>
      let listing := if showListing then "\nDisassembly:\n" ++ Listing.ofUnits true units ++ "\n"
        else ""
      let printed := summary units ++ listing
      let path := output.getD (Path.withExtension input "nlb")
      match w.files.writeFile w.cwd path (Bytecode.writtenPart units) with
      | .error e =>
        .failed w printed { text := "Failed to create output file", causes := [e.message] }
      | .ok files =>
        let w := { w with files }
        if (Bytecode.write? units).isSome then
          { world := w, printed := printed ++ "Wrote " ++ path ++ "\n" }
        else
          .failed w printed
            { text := "Failed to write output", causes := [Bytecode.tooLargeMessage] }

def decodeCauses : Bytecode.DecodeError → List String
  | e@(.stream fault) => [e.message, fault.message]
  | e => [e.message]

def disassemble (w : World) (input : String) (showLines : Bool) : Outcome :=
  match w.files.openEntry w.cwd input with
  | .error e => .failed w "" { text := "Failed to read input file", causes := [e.message] }
  | .ok entry =>
    match Bytecode.readStream (Machine.streamOf entry) with
    | .error e => .failed w "" { text := "Invalid bytecode file", causes := decodeCauses e }
    | .ok units => { world := w, printed := Listing.ofUnits showLines units }

/-! ### Modules -/

def configCauses : ConfigError → List String
  | e@(.unreadable error) => [e.message, error.message]
  | e => [e.message]

/-- The configuration of a request: the one that is named, or else the one that is found from the
working directory upwards. -/
def configOf (w : World) (r : Request) : Except Failure LoaderConfig :=
  match r.configFile with
  | some path => (LoaderConfig.load w.files w.cwd path).mapError fun e =>
      { text := "Failed to load config " ++ path, causes := configCauses e }
  | none => (LoaderConfig.find w.files w.cwd w.cwd.path).mapError fun e =>
      { text := "Failed to load " ++ LoaderConfig.fileName, causes := configCauses e }

/-- The host of a request.  The directories of the request come first in its search path, in their
order. -/
def hostOf (w : World) (r : Request) : Except Failure Host := do
  let host := Host.create (← configOf w r) w.environment
  return { host with searchPath := r.searchDirs.foldr (fun dir p => p.prepend dir) host.searchPath }

/-- What a failed load says, with a line for every frame that it left. -/
def loadFailure (e : LoadError) : Failure := { text := e.toException.report }

def printedBy (m : Machine) : String :=
  String.join (m.host.output.map fun line => line ++ "\n")

def loadOutcome (name : String) (m : Machine) : Outcome :=
  match m.loaded? with
  | some (.ok true) => { world := m.world, printed := printedBy m }
  | some (.ok false) =>
    { world := m.world, printed := printedBy m ++ name ++ " is already loaded\n" }
  | some (.error e) => .failed m.world (printedBy m) (loadFailure e)
  | none => .failed m.world (printedBy m) { text := "The module has not come to its end" }

def resolve (w : World) (host : Host) (name : String) : Outcome :=
  match w.resolve host.searchPath name with
  | .ok path => { world := w, printed := path ++ "\n" }
  | .error e => .failed w "" (loadFailure e)

def withHost (w : World) (r : Request) (act : Host → Outcome) : Outcome :=
  match hostOf w r with
  | .ok host => act host
  | .error f => .failed w "" f

/-! ### Requests -/

def Request.run (w : World) (r : Request) : Outcome :=
  match r.command with
  | .compile input output showListing => compile w input output showListing
  | .disassemble input showLines => disassemble w input showLines
  | .resolve name => withHost w r fun host => resolve w host name
  | .load name => withHost w r fun host => loadOutcome name (Machine.loadModule host w name)
  | .run name => withHost w r fun host => loadOutcome name (Machine.requireModule host w name)

def Ending.outcome (w : World) : Ending → Outcome
  | help => { world := w, printed := usage }
  | version => { world := w, printed := versionLine }
  | misuse => { world := w, exitCode := 2, reported := usage }

def run (w : World) (arguments : List String) : Outcome :=
  match Request.ofArguments arguments with
  | .ok r => r.run w
  | .error ending => ending.outcome w

end ModuleHost.CommandLine
