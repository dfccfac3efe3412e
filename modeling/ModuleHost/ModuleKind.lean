import ModuleHost.FileTree.Path

/-!
# Kinds of modules

The extension of a file says how the module in it is loaded, and a name without an extension is
tried with each extension in turn.
-/

namespace ModuleHost

inductive ModuleKind where
  /-- Bytecode. -/
  | compiled
  /-- Source text, which is assembled first. -/
  | source
  /-- A shared library. -/
  | native
deriving DecidableEq, Repr

namespace ModuleKind

/-- All kinds, in the order in which a name is tried. -/
def all : List ModuleKind := [compiled, source, native]

/-- The extension without its dot. -/
def extension : ModuleKind → String
  | compiled => "nlb"
  | source => "nl"
  | native => "so"

/-- The extension with its dot. -/
def suffix (k : ModuleKind) : String := "." ++ k.extension

inductive Unknown where
  /-- There is no extension. -/
  | noExtension
  /-- The extension belongs to no kind. -/
  | otherExtension
deriving DecidableEq, Repr

def Unknown.reason : Unknown → String
  | noExtension => "invalid"
  | otherExtension => "invalid extension"

def ofPath (path : String) : Except Unknown ModuleKind :=
  match Path.extension? path with
  | none => .error .noExtension
  | some extension =>
    match all.find? (·.extension = extension) with
    | some kind => .ok kind
    | none => .error .otherExtension

/-- The suffixes with which `name` is tried: none but the empty one if it has an extension. -/
def candidateSuffixes (name : String) : List String :=
  if (Path.extension? name).isSome then [""] else all.map suffix

end ModuleKind

end ModuleHost
