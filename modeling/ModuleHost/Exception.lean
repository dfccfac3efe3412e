/-!
# Exceptions

An exception has a class and a message, and collects one entry for every frame it leaves, the
innermost first.
-/

namespace ModuleHost

structure Exception where
  className : String
  message : String
  backtrace : List String := []
deriving DecidableEq, Repr

namespace Exception

def runtimeError (message : String) : Exception := { className := "RuntimeError", message }

def typeError (message : String) : Exception := { className := "TypeError", message }

def argumentError (message : String) : Exception := { className := "ArgumentError", message }

/-- Raised where a name is neither a function nor a builtin. -/
def undefinedMethod (name receiver : String) : Exception :=
  { className := "NoMethodError"
    message := "undefined method '" ++ name ++ "' for " ++ receiver }

/-- Raised when too many frames are active. -/
def stackOverflow : Exception :=
  { className := "SystemStackError", message := "stack level too deep" }

/-- The exception with one more entry at the end of its backtrace. -/
def leaving (e : Exception) (entry : String) : Exception :=
  { e with backtrace := e.backtrace ++ [entry] }

def text (e : Exception) : String := e.message ++ " (" ++ e.className ++ ")"

/-- The message with the class, and a line for every entry of the backtrace. -/
def report (e : Exception) : String :=
  e.text ++ String.join (e.backtrace.map fun entry => "\n\tfrom " ++ entry)

end Exception

end ModuleHost
