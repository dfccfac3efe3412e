/-!
# Numerals

Whole numbers as text, in a base of at most sixteen: one or more digits, with a sign in front of
them where the reader allows one.
-/

namespace ModuleHost.Text

/-- The value of a digit of a base up to sixteen, in either case. -/
def digitValue? (base : Nat) (c : Char) : Option Nat :=
  let value? : Option Nat :=
    if '0' ≤ c ∧ c ≤ '9' then some (c.toNat - '0'.toNat)
    else if 'a' ≤ c ∧ c ≤ 'f' then some (c.toNat - 'a'.toNat + 10)
    else if 'A' ≤ c ∧ c ≤ 'F' then some (c.toNat - 'A'.toNat + 10)
    else none
  value?.filter (· < base)

def appendDigits? (base : Nat) : (n : Nat) → (cs : List Char) → Option Nat
  | n, [] => some n
  | n, c :: cs => do
    let d ← digitValue? base c
    appendDigits? base (n * base + d) cs

def digits? (base : Nat) (cs : List Char) : Option Nat :=
  if cs.isEmpty then none else appendDigits? base 0 cs

/-- Digits with at most one plus sign in front of them. -/
def unsigned? (base : Nat) : List Char → Option Nat
  | '+' :: cs => digits? base cs
  | cs => digits? base cs

/-- Digits with at most one sign in front of them. -/
def signed? (base : Nat) : List Char → Option Int
  | '-' :: cs => (digits? base cs).map fun n => -(n : Int)
  | cs => (unsigned? base cs).map fun n => (n : Int)

/-- The digits of `n` in base sixteen, in lower case and without leading zeros. -/
def lowerHex (n : Nat) : List Char := Nat.toDigits 16 n

/-- `text` with spaces in front of it to fill `width` characters. -/
def padStart (width : Nat) (text : String) : String :=
  String.ofList (List.replicate (width - text.length) ' ') ++ text

end ModuleHost.Text
