/-!
# Configuration

The settings of the module loader and their values when nothing is set.
-/

namespace ModuleHost

structure LoaderConfig where
  /-- The variable that holds the first directories of the search path. -/
  envVar : String := "NLLIB"
  /-- Directories that come behind those of the variable. -/
  searchPaths : List String := []
  /-- The entry point of a native module. -/
  nativeEntrySymbol : String := "nl_ext_init"
  /-- What the names of temporary files begin with. -/
  tempPrefix : String := "nlreq."
  /-- The directory of temporary files; the one of the system if none is set. -/
  tempDir : Option String := none
  /-- Whether a module that could not be required may be required again. -/
  retryFailed : Bool := true
deriving DecidableEq, Repr, Inhabited

end ModuleHost
