import ModuleHost.Bytecode.Basic
import ModuleHost.Exception
import ModuleHost.FileTree.Basic
import ModuleHost.ModuleKind

/-!
# Failures of loading

Why a module could not be loaded, and the exception that code sees in its place.
-/

namespace ModuleHost

inductive LoadCause where
  /-- The file could not be read, or a temporary file not be made. -/
  | file (error : FileError)
  /-- The units of a source have a table or a string that is too long to be written. -/
  | tooLarge
  /-- The bytecode was refused. -/
  | bytecode (error : Bytecode.DecodeError)
deriving DecidableEq, Repr

inductive NativeFault where
  | tooShort
  | invalidHeader
deriving DecidableEq, Repr

def NativeFault.message : NativeFault → String
  | tooShort => "file too short"
  | invalidHeader => "invalid ELF header"

inductive LoadError where
  /-- No file matches the name. -/
  | notFound (name : String)
  /-- The file is a module of no kind. -/
  | unknownKind (path : String) (reason : ModuleKind.Unknown)
  /-- The file gave no units. -/
  | unreadable (path : String) (cause : LoadCause)
  /-- The source could not be compiled. -/
  | uncompiled (path message : String)
  /-- The shared library could not be opened. -/
  | native (path : String) (fault : NativeFault)
  /-- Code that ran during the load raised an exception. -/
  | raised (exception : Exception)
deriving DecidableEq, Repr

namespace LoadError

def message : LoadError → String
  | notFound name => "cannot load such file -- " ++ name
  | unknownKind path reason => "Filepath '" ++ path ++ "' is " ++ reason.reason ++ "."
  | unreadable path _ => "can't load " ++ path
  | uncompiled path message => "can't load " ++ path ++ ": " ++ message
  | native path fault => path ++ ": " ++ fault.message
  | raised exception => exception.text

/-- The class of the exception that stands for the failure. -/
def className : LoadError → String
  | notFound _ | unknownKind .. | unreadable .. | uncompiled .. => "LoadError"
  | native .. => "RuntimeError"
  | raised exception => exception.className

/-- The exception that code sees. -/
def toException : LoadError → Exception
  | raised exception => exception
  | e => { className := e.className, message := e.message }

end LoadError

end ModuleHost
