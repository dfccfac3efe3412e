/-!
# Values

What registers, global variables and the arena hold.
-/

namespace ModuleHost

inductive Value where
  | nil
  | bool (b : Bool)
  | int (n : Int64)
  | str (text : String)
  /-- The receiver of top-level code. -/
  | main
deriving DecidableEq, Repr, Inhabited

namespace Value

def typeName : Value → String
  | nil => "NilClass"
  | bool true => "TrueClass"
  | bool false => "FalseClass"
  | int _ => "Integer"
  | str _ => "String"
  | main => "Object"

/-- All values but nil and false are truthy. -/
def isTruthy : Value → Bool
  | nil | bool false => false
  | _ => true

def text : Value → String
  | nil => ""
  | bool true => "true"
  | bool false => "false"
  | int n => toString n.toInt
  | str text => text
  | main => "main"

end Value

end ModuleHost
