/-!
# Paths as text

A path is text with its names between slashes.  Here stands what can be said of a path without
looking at any file: its pieces, its last name, the extension of that name and the directories
above it.
-/

namespace ModuleHost.Path

/-- What stands between the slashes. -/
def pieces (path : String) : List String := (path.toList.splitOn '/').map String.ofList

def isAbsolute (path : String) : Bool := path.toList.head? = some '/'

/-- A piece that does not lead anywhere else. -/
def isIdle (piece : String) : Bool := piece = "" || piece = "."

/-- The pieces without the idle ones at the end. -/
def leadingPieces (path : String) : List String :=
  ((pieces path).reverse.dropWhile isIdle).reverse

/-- The last name of the path; there is none if it ends in `..` or leads to where it begins. -/
def fileName? (path : String) : Option String :=
  (leadingPieces path).getLast?.filter (· ≠ "..")

/-- What stands before and behind the last dot of a name, if something stands before it. -/
def cutAtLastDot? (name : String) : Option (String × String) :=
  let reversed := name.toList.reverse
  match reversed.dropWhile (· ≠ '.') with
  | [] => none
  | _ :: before =>
    if before.isEmpty then none
    else some (String.ofList before.reverse,
      String.ofList (reversed.takeWhile (· ≠ '.')).reverse)

def extension? (path : String) : Option String :=
  ((fileName? path).bind cutAtLastDot?).map (·.2)

/-- A name with `extension` in the place of the extension it has.  Without its old extension a name
may be `..`, which cannot have another one. -/
def nameWithExtension (name extension : String) : String :=
  match cutAtLastDot? name with
  | none => name ++ "." ++ extension
  | some (stem, _) => if stem = "." then ".." else stem ++ "." ++ extension

/-- The path with `extension` in the place of the extension of its last name.  A path without a last
name stays as it is. -/
def withExtension (path extension : String) : String :=
  match fileName? path with
  | none => path
  | some name => String.intercalate "/"
      ((leadingPieces path).dropLast ++ [nameWithExtension name extension])

/-- The path of `name` in the directory `dir`; an absolute name stands for itself. -/
def join (dir name : String) : String :=
  if isAbsolute name || dir.isEmpty then name
  else if dir.toList.getLast? = some '/' then dir ++ name
  else dir ++ "/" ++ name

/-- Whether a piece of a path leads nowhere behind the pieces `before` it, the last of them first.
A dot at the start of a path counts as a name. -/
def isIdleBehind (before : List String) (piece : String) : Bool :=
  isIdle piece && !(piece = "." && before.isEmpty)

def fromLastName : (reversed : List String) → List String
  | [] => []
  | piece :: before =>
    if isIdleBehind before piece then fromLastName before else piece :: before

/-- The directories above a path with these pieces, from the last to the first; `root` is the text
of the directory above all names. -/
def above (root : String) : (reversed : List String) → List String
  | [] => []
  | piece :: before =>
    if isIdleBehind before piece then above root before
    else
      let directory := (fromLastName before).reverse
      (if directory.isEmpty then root else String.intercalate "/" directory) :: above root before

/-- The path and the directories above it, as far as its text goes, from the longest to the
shortest. -/
def ancestors (path : String) : List String :=
  path :: above (if isAbsolute path then "/" else "") (pieces path).reverse

end ModuleHost.Path
