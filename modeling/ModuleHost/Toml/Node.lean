/-!
# Documents as trees

A configuration document is a table whose entries are values and further tables.  A table remembers
how it came about, because that decides who may still add to it: a table with a header of its own is
closed to dotted keys, a table that only stands on the way of a header may get its own header once,
and a table made by dotted keys may be extended by dotted keys alone.
-/

namespace ModuleHost.Toml

inductive TableOrigin where
  /-- By a header of its own. -/
  | header
  /-- On the way of a header to a table further down. -/
  | passage
  /-- On the way of a dotted key. -/
  | dotted
deriving DecidableEq, Repr

/-- A value or a table.  Numbers and points in time keep no value, since no setting has one. -/
inductive Node where
  | string (text : String)
  | boolean (b : Bool)
  | number
  | datetime
  | array (elements : List Node)
  /-- A table that was written as a value; nothing can be added to it. -/
  | inlineTable (entries : List (String × Node))
  | table (origin : TableOrigin) (entries : List (String × Node))
  /-- The tables under a repeated header, each with its entries. -/
  | tables (elements : List (List (String × Node)))
deriving Repr

abbrev Entries := List (String × Node)

namespace Entries

/-- The entries with `node` in the place of what `key` had before, or behind the others. -/
def put (key : String) (node : Node) : Entries → Entries
  | [] => [(key, node)]
  | entry :: rest => if entry.1 = key then (key, node) :: rest else entry :: put key node rest

def erase (key : String) (entries : Entries) : Entries := entries.filter (·.1 ≠ key)

/-- Changes the table at the end of `path`; missing tables on the way are made.  `dotted` says that
the path belongs to a dotted key, which may not pass through a table with a header of its own.  Of a
repeated header the last table is meant. -/
def descend {α : Type} (dotted : Bool) (change : TableOrigin → Entries → Option (α × Entries)) :
    (path : List String) → TableOrigin → Entries → Option (α × Entries)
  | [], origin, entries => change origin entries
  | key :: path, _, entries =>
    match entries.lookup key with
    | none => do
      let origin := if dotted then .dotted else .passage
      let (a, inner) ← descend dotted change path origin []
      return (a, put key (.table origin inner) entries)
    | some (.table origin inner) => do
      if dotted ∧ origin = .header then none
      let (a, inner) ← descend dotted change path origin inner
      return (a, put key (.table origin inner) entries)
    | some (.tables elements) => do
      let (a, last) ← descend dotted change path .header (← elements.getLast?)
      return (a, put key (.tables (elements.dropLast ++ [last])) entries)
    | some _ => none

/-- Adds the entry of a key, which must be new.  Behind a dotted key stands a table that dotted keys
have made. -/
def insert (path : List String) (node : Node) (entries : Entries) : Option Entries := do
  let key ← path.getLast?
  let isDotted := path.length > 1
  let add (origin : TableOrigin) (table : Entries) : Option (Unit × Entries) :=
    if isDotted ∧ origin ≠ .dotted then none
    else if (table.lookup key).isSome then none
    else some ((), table ++ [(key, node)])
  let (_, entries) ← descend isDotted add path.dropLast .header entries
  return entries

end Entries

/-- A document as far as it has been read: the table under the latest header is kept apart until it
is complete. -/
structure Document where
  root : Entries := []
  current : Entries := []
  /-- The header of the current table, `[]` for the root. -/
  path : List String := []
  /-- Whether the header is a repeated one. -/
  isRepeated : Bool := false
deriving Repr

namespace Document

def close (d : Document) : Option Entries :=
  match d.path.getLast? with
  | none => some d.current
  | some key => do
    let place (_ : TableOrigin) (table : Entries) : Option (Unit × Entries) :=
      match table.lookup key with
      | none =>
        let node := if d.isRepeated then .tables [d.current] else .table .header d.current
        some ((), table ++ [(key, node)])
      | some (.tables elements) =>
        if d.isRepeated then some ((), Entries.put key (.tables (elements ++ [d.current])) table)
        else none
      | some _ => none
    let (_, root) ← Entries.descend false place d.path.dropLast .header d.root
    return root

def insert (d : Document) (path : List String) (node : Node) : Option Document := do
  return { d with current := ← Entries.insert path node d.current }

/-- Starts the table under the header `path`.  A table that other headers have passed through keeps
what it has. -/
def startTable (d : Document) (path : List String) : Option Document := do
  let root ← d.close
  let key ← path.getLast?
  let take (_ : TableOrigin) (table : Entries) : Option (Entries × Entries) :=
    match table.lookup key with
    | none => some ([], table)
    | some (.table .passage inner) => some (inner, Entries.erase key table)
    | some _ => none
  let (current, root) ← Entries.descend false take path.dropLast .header root
  return { root, current, path }

def startRepeated (d : Document) (path : List String) : Option Document := do
  let root ← d.close
  let key ← path.getLast?
  let check (_ : TableOrigin) (table : Entries) : Option (Unit × Entries) :=
    match table.lookup key with
    | none | some (.tables _) => some ((), table)
    | some _ => none
  let (_, root) ← Entries.descend false check path.dropLast .header root
  return { root, path, isRepeated := true }

end Document

end ModuleHost.Toml
