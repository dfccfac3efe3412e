import ModuleHost.Assembly.Program
import ModuleHost.Bindings
import ModuleHost.Bytecode.Reader
import ModuleHost.Config.Basic
import ModuleHost.Exception
import ModuleHost.Ledger
import ModuleHost.Loading.Environment
import ModuleHost.SearchPath
import ModuleHost.Value

/-!
# Hosts

A host owns everything that code can see or change but the files: the table of units, global
variables, functions, the arena of temporary values, a pending exception, the lines printed so far
and the state of module loading.  Two hosts share nothing, which is why source can be compiled in a
host of its own.
-/

namespace ModuleHost

/-- The functions that are not written in units. -/
inductive Builtin where
  | print
  | load
  | require
  | addLoadPath
deriving DecidableEq, Repr

namespace Builtin

def all : List Builtin := [addLoadPath, load, print, require]

def name : Builtin → String
  | print => "print"
  | load => "load"
  | require => "require"
  | addLoadPath => "add_load_path"

end Builtin

/-- What is asked of a compiler. -/
inductive CompileMode where
  /-- Append the units and stop. -/
  | declare
  /-- Append the units, then run the first one. -/
  | execute
deriving DecidableEq, Repr

/-- Both compilers append the units of a source; they differ in when they run them. -/
inductive Compiler where
  /-- Runs the first unit if it is asked to. -/
  | onRequest
  /-- Runs the first unit always. -/
  | always
deriving DecidableEq, Repr

def Compiler.executes : Compiler → CompileMode → Bool
  | always, _ => true
  | onRequest, mode => mode = .execute

structure Host where
  units : List CodeUnit := []
  globals : Bindings Value := {}
  /-- Each function with the index of its unit. -/
  functions : Bindings Nat := {}
  builtins : List Builtin := Builtin.all
  /-- An exception that was raised outside of any frame. -/
  pending : Option Exception := none
  /-- Temporary values; every load gives back what it has put there. -/
  arena : List Value := []
  /-- Set by a halt and never unset. -/
  halted : Bool := false
  /-- The number of frames that are active. -/
  depth : Nat := 0
  /-- The lines printed so far. -/
  output : List String := []
  compiler : Compiler := .onRequest
  searchPath : SearchPath := {}
  ledger : Ledger := {}
  config : LoaderConfig := {}
deriving DecidableEq, Repr

namespace Host

/-- No frame is entered when this many are active. -/
def maxDepth : Nat := 256

/-- A host with the given configuration; its search path holds the directories of the configured
variable and then the configured ones. -/
def create (config : LoaderConfig) (environment : Environment) : Host :=
  let fromVariable := match environment.value? config.envVar with
    | some value => SearchPath.ofValue value
    | none => {}
  { config, searchPath := fromVariable.extend config.searchPaths }

/-- A fresh host with the same compiler and configuration, which can print and nothing else. -/
def isolated (h : Host) : Host :=
  { builtins := [.print], compiler := h.compiler, config := h.config }

def builtin? (h : Host) (name : String) : Option Builtin := h.builtins.find? (·.name = name)

def appendUnits (h : Host) (units : List CodeUnit) : Host := { h with units := h.units ++ units }

def modifyUnit (h : Host) (index : Nat) (change : CodeUnit → CodeUnit) : Host :=
  { h with units := h.units.modify index change }

def attributeFrom (h : Host) (index : Nat) (name : Option String) : Host :=
  { h with units := h.units.take index
      ++ (h.units.drop index).map fun u => { u with filename := name } }

def pushArena (h : Host) (values : List Value) : Host := { h with arena := h.arena ++ values }

/-- Drops what has been put into the arena since it held `mark` values. -/
def restoreArena (h : Host) (mark : Nat) : Host := { h with arena := h.arena.take mark }

def printLine (h : Host) (line : String) : Host := { h with output := h.output ++ [line] }

def setGlobal (h : Host) (name : String) (value : Value) : Host :=
  { h with globals := h.globals.set name value }

def defineFunction (h : Host) (name : String) (unit : Nat) : Host :=
  { h with functions := h.functions.set name unit }

def enterFrame (h : Host) : Host := { h with depth := h.depth + 1 }

def leaveFrame (h : Host) : Host := { h with depth := h.depth - 1 }

/-- The pending exception that a refused stream leaves: only another version leaves one. -/
def pendingFor? : Bytecode.DecodeError → Option Exception
  | e@(.unsupportedVersion _) => some { className := "ScriptError", message := e.message }
  | _ => none

/-- Reads a stream into the table of units and gives the index of the first one.  The symbols of all
units are put into the arena; a stream of another version leaves a pending exception. -/
def readUnits (h : Host) (stream : Except Bytecode.StreamFault (List UInt8)) :
    Except Bytecode.DecodeError Nat × Host :=
  match Bytecode.readStream stream with
  | .ok units =>
    (.ok h.units.length,
      (h.pushArena (units.flatMap fun u => u.symbols.map Value.str)).appendUnits units)
  | .error e => (.error e, { h with pending := (pendingFor? e).or h.pending })

end Host

end ModuleHost
