import ModuleHost.Loading.Error
import ModuleHost.Loading.World
import ModuleHost.SearchPath

/-!
# Resolving names

Which file a module name stands for.  A name that begins with a slash is a path as it is.  A name
that begins with a dot is looked up in the working directory, any other in the directories of the
search path; every suffix is tried in one directory before the next directory.  What is found that
way is named by its place in the file tree, so that two spellings of one file come to one path.
-/

namespace ModuleHost.World

def lookupDirs (searchPath : SearchPath) (name : String) : List String :=
  if name.toList.head? = some '.' then ["."] else searchPath.dirs

def candidates (searchPath : SearchPath) (name : String) : List String :=
  (lookupDirs searchPath name).flatMap fun dir =>
    (ModuleKind.candidateSuffixes name).map fun suffix => dir ++ "/" ++ name ++ suffix

/-- The place of the file to which a candidate leads. -/
def candidateFile? (w : World) (candidate : String) : Option Location :=
  match w.files.canonicalize w.cwd candidate with
  | .ok l => match w.files.entryAt? l with
    | some (.file _) => some l
    | _ => none
  | .error _ => none

/-- The path of the file that `name` stands for. -/
def resolve (w : World) (searchPath : SearchPath) (name : String) : Except LoadError String :=
  if Path.isAbsolute name then
    if w.files.isFile w.cwd name then .ok name else .error (.notFound name)
  else
    match (candidates searchPath name).findSome? w.candidateFile? with
    | some l => .ok l.path
    | none => .error (.notFound name)

end ModuleHost.World
