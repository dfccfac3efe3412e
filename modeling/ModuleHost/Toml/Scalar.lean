import ModuleHost.Toml.Text

/-!
# Numbers and points in time

The readers of numbers and points in time only tell where one ends: no setting has such a value.
They still refuse what is none, a number that does not fit and a day that does not exist.
-/

namespace ModuleHost.Toml

/-! ### Points in time -/

def fixedDigits? (count : Nat) (cs : List Char) : Option (Nat × List Char) :=
  let digits := cs.take count
  if digits.length = count ∧ digits.all Char.isDigit then
    (Text.digits? 10 digits).map (·, cs.drop count)
  else none

def twoDigits? (low high : Nat) (cs : List Char) : Option (Nat × List Char) := do
  let (n, rest) ← fixedDigits? 2 cs
  if low ≤ n ∧ n ≤ high then some (n, rest) else none

def char? (c : Char) : List Char → Option (List Char)
  | [] => none
  | d :: rest => if d = c then some rest else none

def isLeapYear (year : Nat) : Bool := year % 4 = 0 && (year % 100 ≠ 0 || year % 400 = 0)

def daysInMonth (year month : Nat) : Nat :=
  match month with
  | 2 => if isLeapYear year then 29 else 28
  | 4 | 6 | 9 | 11 => 30
  | _ => 31

def date? (cs : List Char) : Option (List Char) := do
  let (year, cs) ← fixedDigits? 4 cs
  let (month, cs) ← twoDigits? 1 12 (← char? '-' cs)
  let (_, cs) ← twoDigits? 1 (daysInMonth year month) (← char? '-' cs)
  return cs

def fraction? : List Char → Option (List Char)
  | '.' :: cs => if (cs.takeWhile Char.isDigit).isEmpty then none else cs.dropWhile Char.isDigit
  | cs => some cs

/-- A time: hour, minute and second; a minute may have a leap second. -/
def time? (cs : List Char) : Option (List Char) := do
  let (_, cs) ← twoDigits? 0 23 cs
  let (_, cs) ← twoDigits? 0 59 (← char? ':' cs)
  let (_, cs) ← twoDigits? 0 60 (← char? ':' cs)
  fraction? cs

def offset? (cs : List Char) : Option (List Char) :=
  match cs with
  | 'Z' :: rest | 'z' :: rest => some rest
  | '+' :: rest | '-' :: rest => do
    let (_, rest) ← twoDigits? 0 23 rest
    let (_, rest) ← twoDigits? 0 59 (← char? ':' rest)
    return rest
  | _ => some cs

/-- A date with a time and an offset behind it, as far as they are there, or a time. -/
def datetime? (cs : List Char) : Option (List Char) :=
  match date? cs with
  | some rest =>
    match rest with
    | 'T' :: time | 't' :: time | ' ' :: time =>
      match time? time with
      | some rest => offset? rest
      | none => some rest
    | _ => some rest
  | none => time? cs

/-! ### Numbers -/

/-- Digits, in which single underscores may stand between two of them. -/
def digitsWithGaps (isDigit : Char → Bool) (afterDigit : Bool) :
    List Char → List Char × List Char
  | [] => ([], [])
  | '_' :: d :: cs =>
    if afterDigit && isDigit d then
      let (digits, rest) := digitsWithGaps isDigit true cs
      (d :: digits, rest)
    else ([], '_' :: d :: cs)
  | c :: cs =>
    if isDigit c then
      let (digits, rest) := digitsWithGaps isDigit true cs
      (c :: digits, rest)
    else ([], c :: cs)

def someDigits? (isDigit : Char → Bool) (cs : List Char) : Option (List Char × List Char) :=
  match digitsWithGaps isDigit false cs with
  | ([], _) => none
  | found => some found

def sign : List Char → Bool × List Char
  | '-' :: cs => (true, cs)
  | '+' :: cs => (false, cs)
  | cs => (false, cs)

/-- The digits of a decimal integer, which has no zero in front. -/
def decimalDigits? : List Char → Option (List Char × List Char)
  | '0' :: cs => some (['0'], cs)
  | cs => someDigits? Char.isDigit cs

/-- The largest and the smallest integer that fit in 64 signed bits. -/
def fitsInteger (negative : Bool) (n : Nat) : Bool :=
  if negative then n ≤ 0x8000000000000000 else n < 0x8000000000000000

/-- An integer in a base other than ten, behind the letter of its base. -/
def basedInteger? (base : Nat) (cs : List Char) : Option (List Char) := do
  let (digits, rest) ← someDigits? (fun c => (Text.digitValue? base c).isSome) cs
  if fitsInteger false (← Text.digits? base digits) then some rest else none

def integer? : List Char → Option (List Char)
  | '0' :: 'x' :: cs => basedInteger? 16 cs
  | '0' :: 'o' :: cs => basedInteger? 8 cs
  | '0' :: 'b' :: cs => basedInteger? 2 cs
  | cs => do
    let (negative, cs) := sign cs
    let (digits, rest) ← decimalDigits? cs
    if fitsInteger negative (← Text.digits? 10 digits) then some rest else none

def exponent? : List Char → Option (Option Int × List Char)
  | 'e' :: cs | 'E' :: cs => do
    let (negative, cs) := sign cs
    let (digits, rest) ← someDigits? Char.isDigit cs
    let n ← Text.digits? 10 digits
    return (some (if negative then -(n : Int) else n), rest)
  | cs => some (none, cs)

def fractionDigits? : List Char → Option (Option (List Char) × List Char)
  | '.' :: cs => (someDigits? Char.isDigit cs).map fun r => (some r.1, r.2)
  | cs => some (none, cs)

/-- Whether `digits` times ten to the `exponent` is rounded to infinity in double precision: it is
at least halfway from the largest finite number to the next power of two. -/
def overflows (digits : List Char) (exponent : Int) : Bool :=
  let digits := digits.dropWhile (· = '0')
  let magnitude : Int := digits.length + exponent
  if digits.isEmpty ∨ magnitude < 300 then false
  else if magnitude > 400 then true
  else
    let n := (Text.digits? 10 digits).getD 0
    let limit := (1 <<< 1024) - (1 <<< 970)
    if exponent ≥ 0 then n * Nat.pow 10 exponent.toNat ≥ limit
    else n ≥ limit * Nat.pow 10 (-exponent).toNat

/-- A number with a fraction, an exponent or both.  A positive one may not be rounded to
infinity. -/
def float? (cs : List Char) : Option (List Char) := do
  let (negative, cs) := sign cs
  let (digits, cs) ← decimalDigits? cs
  let (fraction, cs) ← fractionDigits? cs
  let (exponent, cs) ← exponent? cs
  if fraction.isNone ∧ exponent.isNone then none
  let fraction := fraction.getD []
  if !negative ∧ overflows (digits ++ fraction) (exponent.getD 0 - fraction.length) then none
  return cs

def word? : (word : List Char) → List Char → Option (List Char)
  | [], cs => some cs
  | c :: word, cs => do word? word (← char? c cs)

/-- Infinity or an undefined number. -/
def specialFloat? (cs : List Char) : Option (List Char) :=
  let (_, cs) := sign cs
  (word? ['i', 'n', 'f'] cs).or (word? ['n', 'a', 'n'] cs)

def number? (cs : List Char) : Option (List Char) :=
  (float? cs).or ((specialFloat? cs).or (integer? cs))

end ModuleHost.Toml
