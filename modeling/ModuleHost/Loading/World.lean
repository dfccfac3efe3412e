import ModuleHost.Bytes
import ModuleHost.Config.Basic
import ModuleHost.FileTree.Basic
import ModuleHost.Loading.Environment

/-!
# The world of a host

What a host shares with its surroundings: the files, the working directory, the variables and the
numbering of temporary files.  A temporary file has a name of its own, made from the number of the
process and a counter that never goes back; it is made only where nothing is, under the first of
sixteen numbers in a row that is free.
-/

namespace ModuleHost

structure World where
  files : FileTree := {}
  cwd : Location := []
  environment : Environment := {}
  /-- The number of the process. -/
  processNumber : Nat := 1
  /-- The number of the next temporary file. -/
  nextArtifact : Nat := 0
deriving DecidableEq, Repr, Inhabited

/-- A temporary file. -/
structure Artifact where
  path : String
  location : Location
deriving DecidableEq, Repr

namespace World

def readText (w : World) (path : String) : Except FileError String := do
  match Bytes.toText? (← w.files.contentsOf w.cwd path) with
  | some text => return text
  | none => throw .invalidText

def tempDir (w : World) (config : LoaderConfig) : String :=
  match config.tempDir with
  | some dir => dir
  | none => (w.environment.value? "TMPDIR").getD "/tmp"

def artifactPath (w : World) (config : LoaderConfig) (number : Nat) : String :=
  Path.join (w.tempDir config)
    (config.tempPrefix ++ toString w.processNumber ++ "." ++ toString number)

/-- How many numbers are tried for a temporary file. -/
def artifactAttempts : Nat := 16

/-- Makes a temporary file under the first free number, of at most `attempts`. -/
def createArtifactWithin (config : LoaderConfig) :
    (attempts : Nat) → World → Except FileError Artifact × World
  | 0, w => (.error .alreadyExists, w)
  | attempts + 1, w =>
    let path := w.artifactPath config w.nextArtifact
    let w := { w with nextArtifact := w.nextArtifact + 1 }
    match w.files.newLocation w.cwd path with
    | .ok location =>
      (.ok { path, location }, { w with files := w.files.insert location (.file []) })
    | .error .alreadyExists => createArtifactWithin config attempts w
    | .error e => (.error e, w)

def createArtifact (w : World) (config : LoaderConfig) : Except FileError Artifact × World :=
  createArtifactWithin config artifactAttempts w

def writeArtifact (w : World) (a : Artifact) (contents : List UInt8) : World :=
  { w with files := w.files.replace a.location (.file contents) }

def removeArtifact (w : World) (a : Artifact) : World :=
  { w with files := w.files.erase a.location }

end World

end ModuleHost
