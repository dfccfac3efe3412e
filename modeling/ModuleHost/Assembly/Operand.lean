import ModuleHost.Assembly.Error
import ModuleHost.Instruction.Basic
import ModuleHost.Text.Numeral

/-!
# Operands

What a single operand of a statement may be: a register, a number, a truth value, a string literal
or a name.
-/

namespace ModuleHost.Assembly

/-- A register: the letter `r` in either case, then a number below 32. -/
def register (operand : List Char) : Except Fault UInt8 :=
  let number? := match operand with
    | 'r' :: digits | 'R' :: digits => Text.unsigned? 10 digits
    | _ => none
  match number? with
  | some n =>
    if n < registerCount then .ok (UInt8.ofNat n)
    else .error (.invalidRegister (String.ofList operand))
  | none => .error (.invalidRegister (String.ofList operand))

/-- A number in base ten, or in base sixteen behind `0x`. -/
def number? : List Char → Option Int
  | '0' :: 'x' :: digits => Text.signed? 16 digits
  | digits => Text.signed? 10 digits

/-- The number of an immediate; a minus sign in front negates what follows it. -/
def immediateValue? : List Char → Option Int
  | '-' :: rest => (number? rest).map (- ·)
  | operand => number? operand

/-- An immediate: a number that fits in 32 signed bits. -/
def immediate (operand : List Char) : Except Fault Int32 :=
  match immediateValue? operand with
  | some n =>
    if Int32.minValue.toInt ≤ n ∧ n ≤ Int32.maxValue.toInt then .ok (Int32.ofInt n)
    else .error (.invalidImmediate (String.ofList operand))
  | none => .error (.invalidImmediate (String.ofList operand))

/-- A count of arguments: a number below 256. -/
def argumentCount (operand : List Char) : Except Fault UInt8 :=
  match Text.unsigned? 10 operand with
  | some n =>
    if n < 256 then .ok (UInt8.ofNat n)
    else .error (.invalidImmediate (String.ofList operand))
  | none => .error (.invalidImmediate (String.ofList operand))

/-- A truth value, `true` as 1 and `false` as 0. -/
def truthValue (operand : List Char) : Except Fault Int32 :=
  if operand = "true".toList then .ok 1
  else if operand = "false".toList then .ok 0
  else .error (.invalidImmediate (String.ofList operand))

/-- The character that stands for `c` behind a backslash. -/
def escapedChar? : Char → Option Char
  | 'n' => some '\n'
  | 't' => some '\t'
  | '0' => some '\x00'
  | '\\' => some '\\'
  | '"' => some '"'
  | _ => none

/-- The text between the quotes of a literal.  A backslash at its end escapes a space, which is no
escape. -/
def unescape : List Char → Except Fault (List Char)
  | [] => .ok []
  | ['\\'] => .error (.unknownEscape ' ')
  | '\\' :: c :: cs =>
    match escapedChar? c with
    | some e => (unescape cs).map (e :: ·)
    | none => .error (.unknownEscape c)
  | c :: cs => (unescape cs).map (c :: ·)

def betweenQuotes? : List Char → Option (List Char)
  | '"' :: rest => if rest.getLast? = some '"' then some rest.dropLast else none
  | _ => none

def stringLiteral (operand : List Char) : Except Fault String :=
  match betweenQuotes? operand with
  | some inner => (unescape inner).map String.ofList
  | none => .error (.notAString (String.ofList operand))

def startsName (c : Char) : Bool := c.isAlpha || c = '_' || c = '$'

def continuesName (c : Char) : Bool := c.isAlphanum || c = '_' || c = '?' || c = '!'

/-- A name: an ASCII letter, `_` or `$`, then ASCII letters, digits, `_`, `?` and `!`. -/
def isName : List Char → Bool
  | [] => false
  | c :: cs => startsName c && cs.all continuesName

def name (operand : List Char) : Except Fault String :=
  if isName operand then .ok (String.ofList operand)
  else .error (.invalidName (String.ofList operand))

end ModuleHost.Assembly
