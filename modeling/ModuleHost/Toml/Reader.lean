import ModuleHost.Toml.Node
import ModuleHost.Toml.Scalar

/-!
# Reading documents

A document is a sequence of lines: blank ones, headers and entries.  Values may nest; there is a
limit to the depth of nesting and to the number of parts of a dotted key.
-/

namespace ModuleHost.Toml

/-! ### Keys -/

def isBareKeyChar (c : Char) : Bool := c.isAlphanum || c = '-' || c = '_'

def keyPart? : List Char → Option (String × List Char)
  | '"' :: cs => (basicString? cs).map fun r => (String.ofList r.1, r.2)
  | '\'' :: cs => (literalString? cs).map fun r => (String.ofList r.1, r.2)
  | cs =>
    let bare := cs.takeWhile isBareKeyChar
    if bare.isEmpty then none else some (String.ofList bare, cs.dropWhile isBareKeyChar)

/-- The parts of a key between dots, at most `limit` of them. -/
def keyParts? : (limit : Nat) → List Char → Option (List String × List Char)
  | 0, _ => none
  | limit + 1, cs => do
    let (part, cs) ← keyPart? (skipSpaces cs)
    match skipSpaces cs with
    | '.' :: cs =>
      let (parts, cs) ← keyParts? limit cs
      return (part :: parts, cs)
    | cs => return ([part], cs)

/-- The most parts of a key, and the deepest nesting of values. -/
def nestingLimit : Nat := 79

def key? (cs : List Char) : Option (List String × List Char) := keyParts? nestingLimit cs

/-! ### Values -/

/-- The elements of an array behind its opening bracket.  There is at most one element for every
character. -/
def elements? (element? : List Char → Option (Node × List Char)) :
    (limit : Nat) → List Char → Option (List Node × List Char)
  | 0, _ => none
  | limit + 1, cs => do
    match ← skipLines? false cs with
    | ']' :: cs => return ([], cs)
    | cs =>
      let (node, cs) ← element? cs
      match ← skipLines? false cs with
      | ',' :: cs =>
        let (nodes, cs) ← elements? element? limit cs
        return (node :: nodes, cs)
      | ']' :: cs => return ([node], cs)
      | _ => none

/-- The entries of a table between braces, behind the opening one, added to those that are there
already.  There is at most one entry for every character. -/
def inlineEntries? (value? : List Char → Option (Node × List Char)) :
    (limit : Nat) → Entries → List Char → Option (Entries × List Char)
  | 0, _, _ => none
  | limit + 1, entries, cs => do
    let (path, cs) ← key? cs
    let (node, cs) ← value? (skipSpaces (← char? '=' cs))
    let entries ← Entries.insert path node entries
    match skipSpaces cs with
    | ',' :: cs => inlineEntries? value? limit entries cs
    | '\x7d' :: cs => return (entries, cs)
    | _ => none

def inlineTable? (value? : List Char → Option (Node × List Char)) (cs : List Char) :
    Option (Node × List Char) :=
  match skipSpaces cs with
  | '\x7d' :: cs => some (.inlineTable [], cs)
  | cs => (inlineEntries? value? (cs.length + 1) [] cs).map fun r => (.inlineTable r.1, r.2)

/-- A value that holds no other. -/
def scalar? (cs : List Char) : Option (Node × List Char) :=
  match cs with
  | '"' :: _ | '\'' :: _ => (string? cs).map fun r => (.string r.1, r.2)
  | 't' :: _ => (word? ['t', 'r', 'u', 'e'] cs).map (.boolean true, ·)
  | 'f' :: _ => (word? ['f', 'a', 'l', 's', 'e'] cs).map (.boolean false, ·)
  | _ =>
    match datetime? cs with
    | some rest => some (.datetime, rest)
    | none => (number? cs).map (.number, ·)

/-- A value in which arrays and tables are nested at most `depth` deep. -/
def value? : (depth : Nat) → List Char → Option (Node × List Char)
  | 0, cs => scalar? cs
  | depth + 1, cs =>
    match cs with
    | '[' :: cs => (elements? (value? depth) (cs.length + 1) cs).map fun r => (.array r.1, r.2)
    | '\x7b' :: cs => inlineTable? (value? depth) cs
    | cs => scalar? cs

/-! ### Lines -/

def header? (d : Document) (cs : List Char) : Option (Document × List Char) :=
  match cs with
  | '[' :: cs => do
    let (path, cs) ← key? cs
    let cs ← word? [']', ']'] cs
    return (← d.startRepeated path, ← restOfLine? cs)
  | cs => do
    let (path, cs) ← key? cs
    let cs ← char? ']' cs
    return (← d.startTable path, ← restOfLine? cs)

def entry? (d : Document) (cs : List Char) : Option (Document × List Char) := do
  let (path, cs) ← key? cs
  let (node, cs) ← value? nestingLimit (skipSpaces (← char? '=' cs))
  let cs ← restOfLine? cs
  return (← d.insert path node, cs)

def line? (d : Document) (cs : List Char) : Option (Document × List Char) :=
  match skipSpaces cs with
  | [] => some (d, [])
  | '[' :: cs => header? d cs
  | c :: cs =>
    if c = '\n' ∨ c = '\r' ∨ c = '#' then (restOfLine? (c :: cs)).map (d, ·)
    else entry? d (c :: cs)

/-- All lines.  There is at most one line for every character. -/
def allLines? : (limit : Nat) → Document → List Char → Option Document
  | _, d, [] => some d
  | 0, _, _ => none
  | limit + 1, d, cs => do
    let (d, cs) ← line? d cs
    allLines? limit d cs

/-- The text without a byte order mark at its start. -/
def dropMark : List Char → List Char
  | c :: cs => if c.toNat = 0xFEFF then cs else c :: cs
  | [] => []

def read? (text : String) : Option Entries := do
  let cs := dropMark text.toList
  (← allLines? cs.length {} cs).close

end ModuleHost.Toml
