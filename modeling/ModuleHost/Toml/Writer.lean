import ModuleHost.Toml.Text

/-!
# Writing values

A string is written between quotes in the plainest form that holds it: as a basic string if nothing
in it has to be escaped, else as a literal string, else the same between tripled quotes, and only if
none of these holds it with escapes.  An array of several elements has one line for each.
-/

namespace ModuleHost.Toml

/-- A control character that has to be escaped wherever it stands. -/
def needsEscape (c : Char) : Bool :=
  (c < ' ' && c ≠ '\t' && c ≠ '\n') || c = '\x7f'

/-- The length of the longest run of `c`, given the run that ends where the text begins. -/
def longestRun (c : Char) : (run : Nat) → List Char → Nat
  | run, [] => run
  | run, d :: cs => if d = c then longestRun c (run + 1) cs else max run (longestRun c 0 cs)

inductive StringForm where
  | basic
  | literal
  | tripledBasic
  | tripledLiteral
deriving DecidableEq, Repr

namespace StringForm

/-- The plainest form that holds `cs`. -/
def plainest (cs : List Char) : StringForm :=
  let controls := cs.any needsEscape
  let breaks := cs.contains '\n'
  let backslashes := cs.contains '\\'
  let quotes := longestRun '"' 0 cs
  let apostrophes := longestRun '\'' 0 cs
  if !controls && !backslashes && quotes = 0 && !breaks then basic
  else if !controls && apostrophes = 0 && !breaks then literal
  else if !controls && !backslashes && quotes ≤ 2 then tripledBasic
  else if !controls && apostrophes ≤ 2 then tripledLiteral
  else if breaks then tripledBasic
  else basic

def delimiter : StringForm → List Char
  | basic => ['"']
  | literal => ['\'']
  | tripledBasic => ['"', '"', '"']
  | tripledLiteral => ['\'', '\'', '\'']

def isTripled : StringForm → Bool
  | tripledBasic | tripledLiteral => true
  | _ => false

end StringForm

/-- The four digits of a code point in base sixteen, in upper case. -/
def fourDigits (n : Nat) : List Char :=
  [n / 4096 % 16, n / 256 % 16, n / 16 % 16, n % 16].map fun d => (Nat.digitChar d).toUpper

/-- How a character of a basic string is written, a quote apart. -/
def escapeChar (tripled : Bool) (c : Char) : List Char :=
  match c with
  | '\x08' => ['\\', 'b']
  | '\t' => ['\\', 't']
  | '\n' => if tripled then ['\n'] else ['\\', 'n']
  | '\x0c' => ['\\', 'f']
  | '\r' => ['\\', 'r']
  | '\\' => ['\\', '\\']
  | c => if needsEscape c then ['\\', 'u'] ++ fourDigits c.toNat else [c]

/-- The characters of a basic string.  Between tripled quotes, two quotes in a row stand as they
are, `run` being the number of those written last. -/
def escapeAll (tripled : Bool) : (run : Nat) → List Char → List Char
  | _, [] => []
  | run, '"' :: cs =>
    if run < (if tripled then 2 else 0) then '"' :: escapeAll tripled (run + 1) cs
    else '\\' :: '"' :: escapeAll tripled 0 cs
  | _, c :: cs => escapeChar tripled c ++ escapeAll tripled 0 cs

def writeString (text : String) : String :=
  let cs := text.toList
  let form := StringForm.plainest cs
  let body := match form with
    | .basic => escapeAll false 0 cs
    | .tripledBasic => escapeAll true 0 cs
    | .literal | .tripledLiteral => cs
  let lead := if form.isTripled && cs.contains '\n' then ['\n'] else []
  String.ofList (form.delimiter ++ lead ++ body ++ form.delimiter)

def writeStrings : List String → String
  | [] => "[]"
  | [text] => "[" ++ writeString text ++ "]"
  | texts => "[" ++ String.join (texts.map fun text => "\n    " ++ writeString text ++ ",") ++ "\n]"

def writeBool (b : Bool) : String := if b then "true" else "false"

/-- An entry of a table on a line of its own; `value` may go over several. -/
def writeEntry (key value : String) : String := key ++ " = " ++ value ++ "\n"

def writeHeader (key : String) : String := "[" ++ key ++ "]\n"

end ModuleHost.Toml
