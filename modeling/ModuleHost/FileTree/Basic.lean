import ModuleHost.FileTree.Path

/-!
# File trees

A file tree is a finite list of entries, each at its place: the list of names that leads to it from
the root.  The root is always a directory.  Paths are followed the way a Unix system follows them:
idle pieces and `..` need a directory to stand on, and a symbolic link is replaced by its target,
up to forty times.  A slash behind the last name asks for a directory.
-/

namespace ModuleHost

/-- A place in a file tree: the names that lead to it from the root. -/
abbrev Location := List String

def Location.path (l : Location) : String := "/" ++ String.intercalate "/" l

inductive Entry where
  | file (contents : List UInt8)
  | directory
  | link (target : String)
deriving DecidableEq, Repr

inductive FileError where
  | notFound
  | notDirectory
  | isDirectory
  | alreadyExists
  | nameTooLong
  | tooManyLinks
  /-- The path holds a NUL character. -/
  | invalidPath
  /-- The file is not UTF-8. -/
  | invalidText
deriving DecidableEq, Repr

def FileError.message : FileError → String
  | notFound => "No such file or directory (os error 2)"
  | notDirectory => "Not a directory (os error 20)"
  | isDirectory => "Is a directory (os error 21)"
  | alreadyExists => "File exists (os error 17)"
  | nameTooLong => "File name too long (os error 36)"
  | tooManyLinks => "Too many levels of symbolic links (os error 40)"
  | invalidPath => "file name contained an unexpected NUL byte"
  | invalidText => "stream did not contain valid UTF-8"

structure FileTree where
  entries : List (Location × Entry) := []
deriving DecidableEq, Repr, Inhabited

namespace FileTree

def entryAt? (t : FileTree) (l : Location) : Option Entry :=
  if l = [] then some .directory else t.entries.lookup l

def insert (t : FileTree) (l : Location) (e : Entry) : FileTree :=
  { entries := t.entries ++ [(l, e)] }

def replace (t : FileTree) (l : Location) (e : Entry) : FileTree :=
  { entries := t.entries.map fun entry => if entry.1 = l then (l, e) else entry }

def erase (t : FileTree) (l : Location) : FileTree :=
  { entries := t.entries.filter fun entry => entry.1 ≠ l }

def eraseBelow (t : FileTree) (l : Location) : FileTree :=
  { entries := t.entries.filter fun entry => entry.1 = l || !l.isPrefixOf entry.1 }

def namesIn (t : FileTree) (l : Location) : List String :=
  t.entries.filterMap fun entry =>
    if entry.1.dropLast = l then entry.1.getLast? else none

/-! ### Following paths -/

/-- Where a path leads: to an entry, or to a name that is free in a directory. -/
inductive Place where
  | present (l : Location)
  | vacant (directory : Location) (name : String)
deriving DecidableEq, Repr

def maxNameBytes : Nat := 255

/-- The bytes from which on a path is too long to be opened. -/
def pathByteLimit : Nat := 4096

/-- The most links that are followed along one path. -/
def maxLinks : Nat := 40

inductive Purpose where
  /-- To open what is there. -/
  | read
  /-- To open a file that is made where there is none.  A slash behind its name would make it a
  directory, and no look is taken at what is there. -/
  | write
  /-- To say where an entry is.  Every place on the way is named by its absolute path, which may not
  be too long to be opened. -/
  | locate
deriving DecidableEq, Repr

/-- Whether a name is too long to be looked up in the directory `here`. -/
def nameTooLong (purpose : Purpose) (here : Location) (name : String) : Bool :=
  name.utf8ByteSize > maxNameBytes
    || purpose = .locate && (Location.path (here ++ [name])).utf8ByteSize ≥ pathByteLimit

/-- Follows `pieces` from the entry at `here`, with at most `links` symbolic links on the way. -/
def follow (t : FileTree) (purpose : Purpose) (links : Nat) (here : Location)
    (pieces : List String) : Except FileError Place :=
  match pieces with
  | [] => .ok (.present here)
  | piece :: rest =>
    if t.entryAt? here ≠ some .directory then .error .notDirectory
    else if Path.isIdle piece then t.follow purpose links here rest
    else if piece = ".." then t.follow purpose links here.dropLast rest
    else if purpose = .write && !rest.isEmpty && rest.all (·.isEmpty) then .error .isDirectory
    else if nameTooLong purpose here piece then .error .nameTooLong
    else match t.entryAt? (here ++ [piece]) with
      | none => if rest.isEmpty then .ok (.vacant here piece) else .error .notFound
      | some (.link target) =>
        match links with
        | 0 => .error .tooManyLinks
        | links + 1 =>
          t.follow purpose links (if Path.isAbsolute target then [] else here)
            (Path.pieces target ++ rest)
      | some _ => t.follow purpose links (here ++ [piece]) rest
termination_by (links, pieces.length)

/-- Where the path leads from the directory `cwd`.  A path that is only to be located may have any
length. -/
def place (t : FileTree) (purpose : Purpose) (cwd : Location) (path : String) :
    Except FileError Place :=
  if path.isEmpty then .error .notFound
  else if path.toList.contains '\x00' then .error .invalidPath
  else if purpose ≠ .locate && path.utf8ByteSize ≥ pathByteLimit then .error .nameTooLong
  else t.follow purpose maxLinks (if Path.isAbsolute path then [] else cwd) (Path.pieces path)

/-- The location of the entry to which the path leads, all links being followed. -/
def locationFor (t : FileTree) (purpose : Purpose) (cwd : Location) (path : String) :
    Except FileError Location := do
  match ← t.place purpose cwd path with
  | .present l => return l
  | .vacant .. => throw .notFound

/-- The location of the entry to which the path leads, by a path that can be opened. -/
def canonicalize (t : FileTree) (cwd : Location) (path : String) : Except FileError Location :=
  t.locationFor .locate cwd path

/-- The entry that opening the path gives, a file or a directory. -/
def openEntry (t : FileTree) (cwd : Location) (path : String) : Except FileError Entry := do
  match t.entryAt? (← t.locationFor .read cwd path) with
  | some e => return e
  | none => throw .notFound

def pathExists (t : FileTree) (cwd : Location) (path : String) : Bool :=
  match t.openEntry cwd path with
  | .ok _ => true
  | .error _ => false

def isFile (t : FileTree) (cwd : Location) (path : String) : Bool :=
  match t.openEntry cwd path with
  | .ok (.file _) => true
  | _ => false

def contentsOf (t : FileTree) (cwd : Location) (path : String) : Except FileError (List UInt8) := do
  match ← t.openEntry cwd path with
  | .file contents => return contents
  | _ => throw .isDirectory

def namesAt (t : FileTree) (cwd : Location) (path : String) : Except FileError (List String) := do
  let l ← t.locationFor .read cwd path
  if t.entryAt? l = some .directory then return t.namesIn l
  throw .notDirectory

/-! ### Making and removing entries -/

/-- The directory and the name of an entry that is to be made or removed; a link at the end of the
path is not followed. -/
def nameInDirectory (t : FileTree) (cwd : Location) (path : String) :
    Except FileError (Location × String) := do
  if path.isEmpty then throw .notFound
  if path.toList.contains '\x00' then throw .invalidPath
  if path.utf8ByteSize ≥ pathByteLimit then throw .nameTooLong
  let start := if Path.isAbsolute path then [] else cwd
  let directory ← match ← t.follow .read maxLinks start (Path.pieces path).dropLast with
    | .present l => pure l
    | .vacant .. => throw .notFound
  if t.entryAt? directory ≠ some .directory then throw .notDirectory
  let name := (Path.pieces path).getLast?.getD ""
  if nameTooLong .read directory name then throw .nameTooLong
  return (directory, name)

/-- The location of a new entry: nothing may be there yet. -/
def newLocation (t : FileTree) (cwd : Location) (path : String) : Except FileError Location := do
  let (directory, name) ← t.nameInDirectory cwd path
  if Path.isIdle name || name = ".." || (t.entryAt? (directory ++ [name])).isSome then
    throw .alreadyExists
  return directory ++ [name]

/-- Writes a file: the contents of an old one are replaced, and a new one is made where the path
leads. -/
def writeFile (t : FileTree) (cwd : Location) (path : String) (contents : List UInt8) :
    Except FileError FileTree := do
  match ← t.place .write cwd path with
  | .present l => match t.entryAt? l with
    | some (.file _) => return t.replace l (.file contents)
    | _ => throw .isDirectory
  | .vacant directory name => return t.insert (directory ++ [name]) (.file contents)

def makeLink (t : FileTree) (cwd : Location) (path target : String) :
    Except FileError FileTree := do
  if target.isEmpty then throw .notFound
  if target.toList.contains '\x00' then throw .invalidPath
  if target.utf8ByteSize ≥ pathByteLimit then throw .nameTooLong
  return t.insert (← t.newLocation cwd path) (.link target)

/-- Makes the directories along `pieces` that are missing under the directory `here`; what was made
before a failure stays.  A dot at the end asks for a directory that is there. -/
def makeDirectoriesFrom (t : FileTree) (here : Location) :
    (pieces : List String) → Except FileError Unit × FileTree
  | [] => (.ok (), t)
  | piece :: rest =>
    match t.follow .read maxLinks here [piece] with
    | .error e => (.error e, t)
    | .ok (.present l) =>
      if t.entryAt? l = some .directory then t.makeDirectoriesFrom l rest
      else (.error .alreadyExists, t)
    | .ok (.vacant directory name) =>
      if rest.contains "." && rest.all Path.isIdle then (.error .notFound, t)
      else if directory ++ [name] = here ++ [piece] then
        (t.insert (here ++ [piece]) .directory).makeDirectoriesFrom (here ++ [piece]) rest
      else (.error .alreadyExists, t)

def makeDirectories (t : FileTree) (cwd : Location) (path : String) :
    Except FileError Unit × FileTree :=
  if path.toList.contains '\x00' then (.error .invalidPath, t)
  else if path.utf8ByteSize ≥ pathByteLimit then (.error .nameTooLong, t)
  else t.makeDirectoriesFrom (if Path.isAbsolute path then [] else cwd) (Path.pieces path)

def withoutSlashes (path : String) : String :=
  String.ofList (path.toList.reverse.dropWhile (· = '/')).reverse

/-- The entry that the path names itself, with its location.  A slash at the end names directories
only. -/
def namedEntry? (t : FileTree) (cwd : Location) (path : String) : Option (Location × Entry) := do
  let (directory, name) ← (t.nameInDirectory cwd (withoutSlashes path)).toOption
  let e ← t.entryAt? (directory ++ [name])
  guard (e = .directory || withoutSlashes path = path)
  return (directory ++ [name], e)

/-- Removes the entry that the path names and all entries under it.  A directory to which the path
leads without naming it, as by a dot or by a link and a slash, stays and is emptied. -/
def removeTree (t : FileTree) (cwd : Location) (path : String) : Except FileError FileTree := do
  match t.namedEntry? cwd path with
  | some (l, _) => return (t.eraseBelow l).erase l
  | none =>
    let l ← t.locationFor .read cwd path
    if t.entryAt? l = some .directory then return t.eraseBelow l
    throw .notDirectory

end FileTree

end ModuleHost
