/-!
# Arguments

A command line names one command among several, with switches in front of its name, behind it or
both.  A switch has a long name after two dashes, some also one letter after one dash; letters can
be put together, and a value can stand in the argument of its switch or in the next one.

Arguments are read from left to right.  A value that is an argument of its own is taken up when the
next switch or operand of the same level comes, or else at the end of the level, so what is wrong
with it shows only then.
-/

namespace ModuleHost.CommandLine

inductive Verb where
  | compile
  | disassemble
  | load
  | resolve
  | run
deriving DecidableEq, Repr

namespace Verb

def all : List Verb := [compile, disassemble, load, resolve, run]

def name : Verb → String
  | compile => "compile"
  | disassemble => "disasm"
  | load => "load"
  | resolve => "resolve"
  | run => "run"

def ofName? (name : String) : Option Verb := all.find? (·.name = name)

/-- Whether the operand is the path of a file and not the name of a module. -/
def takesPath : Verb → Bool
  | compile | disassemble => true
  | load | resolve | run => false

end Verb

inductive Switch where
  /-- A directory in front of the search path. -/
  | searchDir
  | configFile
  | outputFile
  /-- Show a listing of what was compiled. -/
  | listing
  /-- Leave the source lines out of a listing. -/
  | withoutLines
  | help
  | version
deriving DecidableEq, Repr

namespace Switch

/-- The switches of a level: in front of the name of the command, or behind it. -/
def ofLevel : (level : Option Verb) → List Switch
  | none => [searchDir, configFile, help, version]
  | some .compile => [searchDir, configFile, outputFile, listing, help]
  | some .disassemble => [searchDir, configFile, withoutLines, help]
  | some _ => [searchDir, configFile, help]

def longName : Switch → String
  | searchDir => "include"
  | configFile => "config"
  | outputFile => "output"
  | listing => "disasm"
  | withoutLines => "no-lines"
  | help => "help"
  | version => "version"

def letter? : Switch → Option Char
  | searchDir => some 'I'
  | outputFile => some 'o'
  | listing => some 'd'
  | help => some 'h'
  | version => some 'V'
  | configFile | withoutLines => none

def takesValue : Switch → Bool
  | searchDir | configFile | outputFile => true
  | listing | withoutLines | help | version => false

end Switch

/-- Why arguments lead to no command. -/
inductive Ending where
  | help
  | version
  /-- The arguments are not understood. -/
  | misuse
deriving DecidableEq, Repr

structure Settings where
  searchDirs : List String := []
  configFile : Option String := none
  outputFile : Option String := none
  showsListing : Bool := false
  hidesLines : Bool := false
  operand : Option String := none
deriving DecidableEq, Repr

namespace Settings

/-- A path, which cannot be empty, where none may stand yet. -/
def onlyPath (old : Option String) (path : String) : Except Ending (Option String) :=
  if old.isSome || path.isEmpty then .error .misuse else .ok (some path)

def onlyMark (old : Bool) : Except Ending Bool := if old then .error .misuse else .ok true

/-- Takes up a switch and its value, which is left out of account if none belongs to it. -/
def set (s : Settings) (value : String) : Switch → Except Ending Settings
  | .searchDir => return { s with searchDirs := s.searchDirs ++ [value] }
  | .configFile => return { s with configFile := ← onlyPath s.configFile value }
  | .outputFile => return { s with outputFile := ← onlyPath s.outputFile value }
  | .listing => return { s with showsListing := ← onlyMark s.showsListing }
  | .withoutLines => return { s with hidesLines := ← onlyMark s.hidesLines }
  | .help => throw .help
  | .version => throw .version

def setOperand (s : Settings) (verb : Verb) (text : String) : Except Ending Settings :=
  if s.operand.isSome || (verb.takesPath && text.isEmpty) then .error .misuse
  else .ok { s with operand := some text }

end Settings

structure Progress where
  settings : Settings := {}
  /-- A switch that has not been taken up yet, with its value if it has come. -/
  pending : Option (Switch × Option String) := none
deriving DecidableEq, Repr

namespace Progress

def awaitsValue (p : Progress) : Bool :=
  match p.pending with
  | some (_, none) => true
  | _ => false

def settle (p : Progress) : Except Ending Settings :=
  match p.pending with
  | none => .ok p.settings
  | some (switch, some value) => p.settings.set value switch
  | some (_, none) => .error .misuse

/-- A switch with its value in the same argument. -/
def attach (p : Progress) (switch : Switch) (value : String) : Except Ending Progress := do
  return { settings := ← (← p.settle).set value switch }

/-- A switch without a value in the same argument. -/
def switchOn (p : Progress) (switch : Switch) : Except Ending Progress := do
  let settings ← p.settle
  if switch.takesValue then return { settings, pending := some (switch, none) }
  else return { settings := ← settings.set "" switch }

/-- An argument after two dashes: the name of a switch, with a value behind an equals sign. -/
def readLong (level : Option Verb) (p : Progress) (text : List Char) : Except Ending Progress :=
  let name := String.ofList (text.takeWhile (· ≠ '='))
  match (Switch.ofLevel level).find? (·.longName = name), text.dropWhile (· ≠ '=') with
  | none, _ => .error .misuse
  | some switch, [] => p.switchOn switch
  | some switch, _ :: value =>
    if switch.takesValue then p.attach switch (String.ofList value) else .error .misuse

/-- An argument after one dash: letters, the last of which can have a value behind it, with or
without an equals sign. -/
def readLetters (level : Option Verb) (p : Progress) : List Char → Except Ending Progress
  | [] => .ok p
  | c :: cs =>
    match (Switch.ofLevel level).find? (·.letter? = some c) with
    | none => .error .misuse
    | some switch =>
      if switch.takesValue then
        match cs with
        | [] => p.switchOn switch
        | '=' :: value => p.attach switch (String.ofList value)
        | value => p.attach switch (String.ofList value)
      else do readLetters level (← p.switchOn switch) cs

/-- An operand, which only stands behind the name of the command. -/
def readOperand (level : Option Verb) (p : Progress) (text : String) : Except Ending Progress := do
  match level with
  | none => throw .misuse
  | some verb => return { settings := ← (← p.settle).setOperand verb text }

/-- One argument.  A single dash is an operand or a value. -/
def read (level : Option Verb) (p : Progress) (argument : String) : Except Ending Progress :=
  match argument.toList with
  | '-' :: '-' :: text => p.readLong level text
  | '-' :: c :: cs => p.readLetters level (c :: cs)
  | _ =>
    match p.pending with
    | some (switch, none) => .ok { p with pending := some (switch, some argument) }
    | _ => p.readOperand level argument

end Progress

/-- What comes before nothing but operands. -/
def operandMark : String := "--"

def readBehind (verb : Verb) : Progress → List String → Except Ending Settings
  | p, [] => p.settle
  | p, argument :: rest => do
    if argument = operandMark then
      (← rest.foldlM (·.readOperand (some verb) ·) p).settle
    else readBehind verb (← p.read (some verb) argument) rest

inductive Command where
  | compile (input : String) (output : Option String) (showListing : Bool)
  | disassemble (input : String) (showLines : Bool)
  | load (name : String)
  | resolve (name : String)
  | run (name : String)
deriving DecidableEq, Repr

structure Request where
  searchDirs : List String := []
  configFile : Option String := none
  command : Command
deriving DecidableEq, Repr

namespace Request

def commandOf (verb : Verb) (s : Settings) : Except Ending Command :=
  match s.operand with
  | none => .error .misuse
  | some operand => .ok <| match verb with
    | .compile => .compile operand s.outputFile s.showsListing
    | .disassemble => .disassemble operand (!s.hidesLines)
    | .load => .load operand
    | .resolve => .resolve operand
    | .run => .run operand

/-- Puts both levels together.  What is said behind the name of the command takes the place of what
is said in front of it. -/
def ofLevels (verb : Verb) (front behind : Settings) : Except Ending Request := do
  return {
    searchDirs := if behind.searchDirs.isEmpty then front.searchDirs else behind.searchDirs
    configFile := behind.configFile.or front.configFile
    command := ← commandOf verb behind }

def helpName : String := "help"

def readHelp : (names : List String) → Ending
  | [] => .help
  | [name] => if name = helpName || (Verb.ofName? name).isSome then .help else .misuse
  | _ => .misuse

/-- The arguments from the start or from somewhere in front of the name of the command. -/
def readFrom : Progress → List String → Except Ending Request
  | _, [] => .error .misuse
  | p, argument :: rest => do
    if p.awaitsValue then readFrom (← p.read none argument) rest
    else
      match Verb.ofName? argument with
      | some verb =>
        let behind ← readBehind verb {} rest
        ofLevels verb (← p.settle) behind
      | none =>
        if argument = helpName then throw (readHelp rest)
        else readFrom (← p.read none argument) rest

def ofArguments (arguments : List String) : Except Ending Request := readFrom {} arguments

end Request

end ModuleHost.CommandLine
