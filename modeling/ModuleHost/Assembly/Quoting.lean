/-!
# String literals inside a line

Comments and operands are told apart by the same scan: it follows the quotes of a line, in which a
backslash inside quotes takes the next character with it.
-/

namespace ModuleHost.Assembly

/-- Where a scan stands with respect to the quotes of a line. -/
inductive Quoting where
  | outside
  | inside
  /-- Inside quotes and behind a backslash. -/
  | escaped
deriving DecidableEq, Repr

def Quoting.next : Quoting → Char → Quoting
  | outside, c => if c = '"' then inside else outside
  | inside, c => if c = '\\' then escaped else if c = '"' then outside else inside
  | escaped, _ => inside

def Quoting.after (q : Quoting) (cs : List Char) : Quoting := cs.foldl Quoting.next q

def startsComment (c : Char) : Bool := c = ';' || c = '#'

def beforeComment (q : Quoting) : List Char → List Char
  | [] => []
  | c :: cs => if q = .outside ∧ startsComment c then [] else c :: beforeComment (q.next c) cs

/-- The pieces between commas outside quotes; `none` if the scan ends inside quotes. -/
def commaPieces? (q : Quoting) : List Char → Option (List (List Char))
  | [] => if q = .outside then some [[]] else none
  | c :: cs =>
    if q = .outside ∧ c = ',' then (commaPieces? .outside cs).map ([] :: ·)
    else (commaPieces? (q.next c) cs).map fun
      | [] => [[c]]
      | piece :: pieces => (c :: piece) :: pieces

end ModuleHost.Assembly
