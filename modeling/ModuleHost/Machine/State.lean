import ModuleHost.Loading.Resolution
import ModuleHost.Machine.Frame
import ModuleHost.Machine.Host

/-!
# The machine

The machine is a host with its world, what happens now and what waits for it.  Calls and loads nest
in each other without limit to their order: what waits is a stack, and the topmost entry takes up
the result of what happens now.  Running code, returning, raising and failing are told apart by the
control of the machine, so that one step never does more than one of them.
-/

namespace ModuleHost

structure Load where
  /-- How many values the arena held at the start. -/
  arenaMark : Nat
  /-- The temporary file from which the units were read. -/
  artifact : Option Artifact := none
  /-- The ledger key, if the load was started by `require`. -/
  key : Option String := none
deriving DecidableEq, Repr

/-- A compilation in progress: its code runs in a host of its own. -/
structure Compilation where
  /-- The load that will go on with the compiled units. -/
  load : Load
  /-- The path of the source. -/
  path : String
  /-- The host that waits. -/
  outer : Host
deriving DecidableEq, Repr

/-- What waits for a result. -/
inductive Activation where
  /-- A frame that will have the result in a register. -/
  | call (frame : Frame) (dest : UInt8)
  | load (load : Load)
  | compilation (compilation : Compilation)
deriving DecidableEq

/-- What happens now. -/
inductive Control where
  | running (frame : Frame)
  | returning (value : Value)
  | raising (exception : Exception)
  /-- A load has ended without success. -/
  | failing (error : LoadError)
  /-- An instruction names a register that does not exist. -/
  | stuck
deriving DecidableEq

structure Machine where
  host : Host
  world : World
  control : Control := .returning .nil
  stack : List Activation := []
deriving DecidableEq

namespace Machine

def push (m : Machine) (a : Activation) : Machine := { m with stack := a :: m.stack }

/-- Starts a frame, unless too many are active. -/
def enter (m : Machine) (unit : Nat) (scope : Scope) (args : List Value) (receiver : Value) :
    Machine :=
  if m.host.depth ≥ Host.maxDepth then
    { m with control := .raising .stackOverflow }
  else
    { m with
      host := m.host.enterFrame
      control := .running (Frame.start unit scope args receiver) }

def enterTopLevel (m : Machine) (unit : Nat) : Machine := m.enter unit .topLevel [] .main

end Machine

end ModuleHost
