import ModuleHost.CommandLine.Run

/-!
# The program

Takes the files that a command may look at into a file tree, runs the command on the tree and writes
what has changed.  In view are the trees of the working directory and of the directories of the
search path, the files that the arguments name and the configuration files above the working
directory.
-/

namespace ModuleHost.CommandLine

structure View where
  files : FileTree := {}
  /-- The places whose entries are all in view. -/
  complete : List Location := []

namespace View

/-- The location of an absolute path without links. -/
def locationOf (path : String) : Location := (Path.pieces path).filter (!Path.isIdle ·)

/-- Adds an entry and the directories above it, where nothing is in view. -/
def add (v : View) (l : Location) (e : Entry) : View :=
  let above := (List.range l.length).map fun n => (l.take n, Entry.directory)
  { v with files := (above ++ [(l, e)]).foldl (fun files entry =>
      if (files.entryAt? entry.1).isSome then files else files.insert entry.1 entry.2) v.files }

/-- Takes in what is at `path`; of a directory only the entry itself unless `whole` is set. -/
partial def take (v : View) (path : String) (whole : Bool) : IO View := do
  let some real ← (some <$> IO.FS.realPath path) <|> pure none | return v
  let l := locationOf real.toString
  if v.complete.contains l then return v
  match (← real.metadata).type with
  | .file => return v.add l (.file (← IO.FS.readBinFile real).toList)
  | .dir =>
    let v := v.add l .directory
    if !whole then return v
    let mut v := { v with complete := l :: v.complete }
    for entry in ← real.readDir do
      let inside := entry.path.toString
      let target := (← (some <$> IO.FS.realPath inside) <|> pure none).map (·.toString)
      match target with
      | none => pure ()
      | some target =>
        if target ≠ inside then v := v.add (l ++ [entry.fileName]) (.link target)
        v ← v.take target whole
    return v
  | _ => return v

end View

def Request.namedFiles (r : Request) : List String :=
  r.configFile.toList ++ match r.command with
    | .compile input output _ =>
      [input, Path.withExtension input "nlb"] ++ output.toList
    | .disassemble input _ => [input]
    | .load name | .resolve name | .run name => [name]

def environmentOf (names : List String) : IO Environment :=
  return .ofPairs (← names.filterMapM fun name => return (← IO.getEnv name).map (name, ·))

/-- The world in which a request is run. -/
def Request.surroundings (r : Request) : IO World := do
  let here := (← IO.FS.realPath ".").toString
  let mut view ← View.take {} here true
  for dir in Path.ancestors here do
    view ← view.take (Path.join dir LoaderConfig.fileName) false
  for path in r.namedFiles do
    let parent := String.intercalate "/" (Path.leadingPieces path).dropLast
    view ← view.take (if parent.isEmpty && !Path.isAbsolute path then "." else parent ++ "/") false
    view ← view.take path false
  let cwd := View.locationOf here
  let world : World := { files := view.files, cwd }
  let names := match configOf world r with
    | .ok config => [config.envVar, "TMPDIR"]
    | .error _ => []
  let world := { world with environment := ← environmentOf names }
  match hostOf world r with
  | .error _ => return world
  | .ok host =>
    for dir in host.searchPath.dirs do
      view ← view.take dir true
    view ← view.take (world.tempDir host.config) false
    return { world with files := view.files }

def writeChanges (old new : FileTree) : IO Unit := do
  for (l, entry) in new.entries do
    match entry with
    | .file contents =>
      if old.entryAt? l ≠ some entry then
        IO.FS.writeBinFile l.path (ByteArray.mk contents.toArray)
    | _ => pure ()

end ModuleHost.CommandLine

open ModuleHost CommandLine in
def main (arguments : List String) : IO UInt32 := do
  let world ← match Request.ofArguments arguments with
    | .ok request => request.surroundings
    | .error _ => pure {}
  let outcome := CommandLine.run world arguments
  (← IO.getStdout).putStr outcome.printed
  (← IO.getStderr).putStr outcome.reported
  writeChanges world.files outcome.world.files
  return UInt32.ofNat outcome.exitCode
