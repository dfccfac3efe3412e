/-!
# Environments

The variables that a host finds around it.  An environment is a list of texts, each with a name, an
equals sign and a value.  What belongs to the name is decided by who asks: under the name `A=B` the
entry `A=B=C` has the value `C`, and under the name `A` it has the value `B=C`.
-/

namespace ModuleHost

structure Environment where
  entries : List String := []
deriving DecidableEq, Repr, Inhabited

namespace Environment

def ofPairs (pairs : List (String × String)) : Environment :=
  { entries := pairs.map fun (name, value) => name ++ "=" ++ value }

/-- What stands behind `start` at the beginning of `text`. -/
def behind? (start text : List Char) : Option (List Char) :=
  if start.isPrefixOf text then some (text.drop start.length) else none

/-- The value of the first variable under `name`; nothing stands under the empty name. -/
def value? (e : Environment) (name : String) : Option String :=
  if name.isEmpty then none
  else e.entries.findSome? fun entry =>
    (behind? (name.toList ++ ['=']) entry.toList).map String.ofList

end Environment

end ModuleHost
