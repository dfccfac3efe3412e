import ModuleHost.Text.Numeral

/-!
# Blanks, comments and strings

What stands between the tokens of a document, and the four kinds of strings: basic ones, with
escapes, and literal ones, without, each on one line or, between tripled quotes, on several.  Every
reader takes what it reads off the front of the text and gives the rest, or nothing.
-/

namespace ModuleHost.Toml

/-! ### Blanks and comments -/

def isSpace (c : Char) : Bool := c = ' ' || c = '\t'

def skipSpaces (cs : List Char) : List Char := cs.dropWhile isSpace

/-- Characters beyond ASCII, all of which may stand in comments and strings. -/
def isWide (c : Char) : Bool := 0x80 ≤ c.toNat

/-- Characters that may stand in a comment: all but controls other than the tab. -/
def isCommentChar (c : Char) : Bool := c = '\t' || (' ' ≤ c && c ≤ '~') || isWide c

/-- A line feed, with or without a carriage return before it. -/
def lineBreak? : List Char → Option (List Char)
  | '\n' :: cs => some cs
  | '\r' :: '\n' :: cs => some cs
  | _ => none

def lineEnd? : List Char → Option (List Char)
  | [] => some []
  | cs => lineBreak? cs

def skipComment : List Char → List Char
  | '#' :: cs => cs.dropWhile isCommentChar
  | cs => cs

/-- What may follow a value or a header: spaces, a comment and the end of the line. -/
def restOfLine? (cs : List Char) : Option (List Char) := lineEnd? (skipComment (skipSpaces cs))

/-- Blanks, line breaks and comments, each comment with a line break at its end. -/
def skipLines? (inComment : Bool) : List Char → Option (List Char)
  | [] => if inComment then none else some []
  | '\n' :: cs => skipLines? false cs
  | '\r' :: '\n' :: cs => skipLines? false cs
  | c :: cs =>
    if inComment then if isCommentChar c then skipLines? true cs else none
    else if c = '#' then skipLines? true cs
    else if isSpace c then skipLines? false cs
    else if c = '\r' then none
    else some (c :: cs)

/-! ### Strings -/

/-- Characters that stand for themselves in a basic string. -/
def isBasicChar (c : Char) : Bool := isCommentChar c && c ≠ '"' && c ≠ '\\'

def isLiteralChar (c : Char) : Bool := isCommentChar c && c ≠ '\''

def codePoint? (digits : List Char) : Option Char := do
  let n ← Text.digits? 16 digits
  if n.isValidChar then some (Char.ofNat n) else none

def escape? : List Char → Option (Char × List Char)
  | 'b' :: cs => some ('\x08', cs)
  | 'f' :: cs => some ('\x0c', cs)
  | 'n' :: cs => some ('\n', cs)
  | 'r' :: cs => some ('\r', cs)
  | 't' :: cs => some ('\t', cs)
  | '"' :: cs => some ('"', cs)
  | '\\' :: cs => some ('\\', cs)
  | 'u' :: cs => if cs.length < 4 then none else (codePoint? (cs.take 4)).map (·, cs.drop 4)
  | 'U' :: cs => if cs.length < 8 then none else (codePoint? (cs.take 8)).map (·, cs.drop 8)
  | _ => none

theorem length_of_escape? {cs rest : List Char} {c : Char} (h : escape? cs = some (c, rest)) :
    rest.length < cs.length := by
  unfold escape? at h
  split at h <;> grind [Option.map_eq_some_iff]

def basicString? (cs : List Char) : Option (List Char × List Char) :=
  match cs with
  | [] => none
  | '"' :: rest => some ([], rest)
  | '\\' :: rest =>
    match _h : escape? rest with
    | some (c, rest) => (basicString? rest).map fun r => (c :: r.1, r.2)
    | none => none
  | c :: rest =>
    if isBasicChar c then (basicString? rest).map fun r => (c :: r.1, r.2) else none
termination_by cs.length
decreasing_by
  · have := length_of_escape? _h
    grind
  · simp

def literalString? : List Char → Option (List Char × List Char)
  | [] => none
  | '\'' :: rest => some ([], rest)
  | c :: rest =>
    if isLiteralChar c then (literalString? rest).map fun r => (c :: r.1, r.2) else none

/-- Whether the text breaks the line before anything but spaces; a backslash in front of it takes
away all blanks that follow. -/
def breaksLine (cs : List Char) : Bool := (lineBreak? (skipSpaces cs)).isSome

/-- A basic string between tripled quotes, behind the opening ones.  Up to two quotes may stand
directly before the closing ones.  With `trimming`, blanks and line breaks are left out until
something else comes. -/
def tripledBasicString? (trimming : Bool) (cs : List Char) : Option (List Char × List Char) :=
  match cs with
  | [] => none
  | '"' :: '"' :: '"' :: '"' :: '"' :: rest => some (['"', '"'], rest)
  | '"' :: '"' :: '"' :: '"' :: rest => some (['"'], rest)
  | '"' :: '"' :: '"' :: rest => some ([], rest)
  | '"' :: rest => (tripledBasicString? false rest).map fun r => ('"' :: r.1, r.2)
  | '\\' :: rest =>
    if breaksLine rest then tripledBasicString? true rest
    else
      match _h : escape? rest with
      | some (c, rest) => (tripledBasicString? false rest).map fun r => (c :: r.1, r.2)
      | none => none
  | '\n' :: rest =>
    if trimming then tripledBasicString? true rest
    else (tripledBasicString? false rest).map fun r => ('\n' :: r.1, r.2)
  | '\r' :: '\n' :: rest =>
    if trimming then tripledBasicString? true rest
    else (tripledBasicString? false rest).map fun r => ('\n' :: r.1, r.2)
  | c :: rest =>
    if trimming && isSpace c then tripledBasicString? true rest
    else if isBasicChar c then (tripledBasicString? false rest).map fun r => (c :: r.1, r.2)
    else none
termination_by cs.length
decreasing_by
  all_goals first
    | (have shorter := length_of_escape? _h; grind)
    | grind

def tripledLiteralString? : List Char → Option (List Char × List Char)
  | [] => none
  | '\'' :: '\'' :: '\'' :: '\'' :: '\'' :: rest => some (['\'', '\''], rest)
  | '\'' :: '\'' :: '\'' :: '\'' :: rest => some (['\''], rest)
  | '\'' :: '\'' :: '\'' :: rest => some ([], rest)
  | '\'' :: rest => (tripledLiteralString? rest).map fun r => ('\'' :: r.1, r.2)
  | '\n' :: rest => (tripledLiteralString? rest).map fun r => ('\n' :: r.1, r.2)
  | '\r' :: '\n' :: rest => (tripledLiteralString? rest).map fun r => ('\n' :: r.1, r.2)
  | c :: rest =>
    if isLiteralChar c then (tripledLiteralString? rest).map fun r => (c :: r.1, r.2) else none

def dropLineBreak (cs : List Char) : List Char := (lineBreak? cs).getD cs

def string? : List Char → Option (String × List Char)
  | '"' :: '"' :: '"' :: cs =>
    (tripledBasicString? false (dropLineBreak cs)).map fun r => (String.ofList r.1, r.2)
  | '"' :: cs => (basicString? cs).map fun r => (String.ofList r.1, r.2)
  | '\'' :: '\'' :: '\'' :: cs =>
    (tripledLiteralString? (dropLineBreak cs)).map fun r => (String.ofList r.1, r.2)
  | '\'' :: cs => (literalString? cs).map fun r => (String.ofList r.1, r.2)
  | _ => none

end ModuleHost.Toml
