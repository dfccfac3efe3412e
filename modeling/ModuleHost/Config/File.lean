import ModuleHost.Bytes
import ModuleHost.Config.Document
import ModuleHost.FileTree.Basic

/-!
# Configuration files

A configuration is read from a file that is named, or from the nearest file of the usual name in a
directory or above it.  A file that is there but cannot be used is an error, and no file further up
takes its place.
-/

namespace ModuleHost

inductive ConfigError where
  | notFound (path : String)
  | unreadable (error : FileError)
  /-- The file is no document, or a setting has a value of the wrong kind. -/
  | malformed
deriving DecidableEq, Repr

def ConfigError.message : ConfigError → String
  | notFound path => "Config file not found: " ++ path
  | unreadable error => "Failed to read config file: " ++ error.message
  | malformed => "Failed to parse config"

namespace LoaderConfig

def fileName : String := "nlreq.toml"

def load (files : FileTree) (cwd : Location) (path : String) : Except ConfigError LoaderConfig :=
  if !files.pathExists cwd path then .error (.notFound path)
  else
    match files.contentsOf cwd path with
    | .error e => .error (.unreadable e)
    | .ok bytes =>
      match Bytes.toText? bytes with
      | none => .error (.unreadable .invalidText)
      | some text =>
        match parse? text with
        | none => .error .malformed
        | some config => .ok config

/-- The configuration in the first of `dirs` that has a file of the usual name, or the default
one. -/
def loadFirst (files : FileTree) (cwd : Location) :
    (dirs : List String) → Except ConfigError LoaderConfig
  | [] => .ok {}
  | dir :: dirs =>
    let path := Path.join dir fileName
    if files.pathExists cwd path then load files cwd path else loadFirst files cwd dirs

/-- The configuration for the directory `start`: the one in it or in the nearest directory above
it, as far as its path goes. -/
def find (files : FileTree) (cwd : Location) (start : String) : Except ConfigError LoaderConfig :=
  loadFirst files cwd (Path.ancestors start)

def save (c : LoaderConfig) (files : FileTree) (cwd : Location) (path : String) :
    Except FileError FileTree :=
  files.writeFile cwd path (Bytes.ofText c.render)

end LoaderConfig

end ModuleHost
