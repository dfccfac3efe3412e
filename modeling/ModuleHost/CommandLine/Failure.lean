import ModuleHost.Text.Numeral

/-!
# Reports of failures

A command that fails says what it could not do, and below that the causes, each the cause of the one
before.  Several causes are numbered; the lines of one cause stand under each other.
-/

namespace ModuleHost.CommandLine

structure Failure where
  text : String
  /-- The causes, the nearest first. -/
  causes : List String := []
deriving DecidableEq, Repr

namespace Failure

/-- `text` behind `lead`; its further lines are indented as far as the first one. -/
def hang (lead text : String) : String :=
  let margin := List.replicate lead.length ' '
  lead ++ String.ofList (text.toList.flatMap fun c => if c = '\n' then '\n' :: margin else [c])

def lead (numbered : Bool) (position : Nat) : String :=
  if numbered then Text.padStart 5 (toString position) ++ ": " else "    "

/-- The lines of the causes, with a line break before each. -/
def causeLines (causes : List String) : String :=
  String.join (causes.mapIdx fun position cause =>
    "\n" ++ hang (lead (causes.length > 1) position) cause)

def report (f : Failure) : String :=
  "Error: " ++ f.text
    ++ (if f.causes.isEmpty then "" else "\n\nCaused by:" ++ causeLines f.causes) ++ "\n"

end Failure

end ModuleHost.CommandLine
