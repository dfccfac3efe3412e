/-!
# The search path

The directories in which modules are looked up, in order.  Directories are kept as they are given:
one that does not exist never matches, and one that occurs twice is looked at twice.
-/

namespace ModuleHost

structure SearchPath where
  dirs : List String := []
deriving DecidableEq, Repr, Inhabited

namespace SearchPath

def separator : Char := ':'

/-- The non-empty pieces of `value` between separators. -/
def ofValue (value : String) : SearchPath :=
  { dirs := ((value.toList.splitOn separator).filter (!·.isEmpty)).map String.ofList }

def push (p : SearchPath) (dir : String) : SearchPath := { dirs := p.dirs ++ [dir] }

def prepend (p : SearchPath) (dir : String) : SearchPath := { dirs := dir :: p.dirs }

def extend (p : SearchPath) (dirs : List String) : SearchPath := { dirs := p.dirs ++ dirs }

end SearchPath

end ModuleHost
