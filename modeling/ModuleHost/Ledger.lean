/-!
# The load ledger

Which modules have been loaded and which are being loaded.  Both are sets of paths that remember
the order in which their members came in.
-/

namespace ModuleHost

/-- A set of paths in the order of their latest insertion. -/
structure PathSet where
  entries : List String := []
deriving DecidableEq, Repr, Inhabited

namespace PathSet

def contains (s : PathSet) (path : String) : Bool := s.entries.contains path

/-- Adds `path` behind the others unless it is a member. -/
def insert (s : PathSet) (path : String) : PathSet :=
  if s.contains path then s else { entries := s.entries ++ [path] }

def erase (s : PathSet) (path : String) : PathSet :=
  if s.contains path then { entries := s.entries.filter (· ≠ path) } else s

end PathSet

inductive LoadState where
  | fresh
  | loaded
  | loading
deriving DecidableEq, Repr

structure Ledger where
  /-- The paths whose load has ended well. -/
  loaded : PathSet := {}
  /-- The paths whose load is in progress, or has failed and is not forgotten. -/
  loading : PathSet := {}
deriving DecidableEq, Repr, Inhabited

namespace Ledger

def state (l : Ledger) (path : String) : LoadState :=
  if l.loaded.contains path then .loaded
  else if l.loading.contains path then .loading
  else .fresh

def markLoading (l : Ledger) (path : String) : Ledger :=
  { l with loading := l.loading.insert path }

/-- Marks a fresh path as being loaded; `none` for a path that is loaded or being loaded, which must
not be loaded again. -/
def begin? (l : Ledger) (path : String) : Option Ledger :=
  if l.state path = .fresh then some (l.markLoading path) else none

def markLoaded (l : Ledger) (path : String) : Ledger :=
  { loading := l.loading.erase path, loaded := l.loaded.insert path }

def markFailed (l : Ledger) (path : String) : Ledger :=
  { l with loading := l.loading.erase path }

end Ledger

end ModuleHost
