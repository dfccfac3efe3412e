import ModuleHost.Assembly.Draft

/-!
# Assembling a source

A source is assembled line by line into the top-level unit and the functions between `.def` and
`.end`.  The result lists the top level first and then the functions in order, which are its
children.
-/

namespace ModuleHost.Assembly

/-- A source as far as it has been assembled. -/
structure Progress where
  top : Draft
  /-- The functions that have ended. -/
  functions : List CodeUnit := []
  /-- The function whose end has not come yet. -/
  current : Option Draft := none
deriving DecidableEq, Repr

namespace Progress

def start (filename : String) : Progress := { top := Draft.start filename none }

/-- Starts a function: the top level binds its name to the next child. -/
def startFunction (p : Progress) (filename : String) (word? : Option (List Char)) (line : Nat) :
    Except Error Progress := do
  if p.current.isSome then throw ⟨line, .nestedFunction⟩
  let some word := word? | throw ⟨line, .missingOperand⟩
  let function ← (name word).mapError (Error.mk line)
  if p.functions.length ≥ 256 then throw ⟨line, .tooManyFunctions⟩
  return { p with
    top := p.top.emitSymbol
      { opcode := .define, mode := UInt8.ofNat p.functions.length } function line
    current := some (Draft.start filename (some function)) }

def endFunction (p : Progress) (line : Nat) : Except Error Progress :=
  match p.current with
  | none => .error ⟨line, .endWithoutFunction⟩
  | some draft => do
    let unit ← draft.finish
    return { p with functions := p.functions ++ [unit], current := none }

/-- Changes the draft that statements go to: the function that has started, or the top level. -/
def onDraft (p : Progress) (change : Draft → Except Error Draft) : Except Error Progress :=
  match p.current with
  | some draft => (change draft).map fun draft => { p with current := some draft }
  | none => (change p.top).map fun top => { p with top }

def statement (filename : String) (p : Progress) (line : Nat) (s : Statement) :
    Except Error Progress :=
  match s with
  | .blank => .ok p
  | .functionStart word? => p.startFunction filename word? line
  | .functionEnd => p.endFunction line
  | .label label => p.onDraft fun d => d.defineLabel label line
  | .operation op => p.onDraft fun d => .ok (d.place op line)

def line (filename : String) (p : Progress) (numbered : List Char × Nat) :
    Except Error Progress := do
  let s ← (Statement.ofLine numbered.1).mapError (Error.mk numbered.2)
  p.statement filename numbered.2 s

/-- The units of a source of `lineCount` lines. -/
def finish (p : Progress) (lineCount : Nat) : Except Error (List CodeUnit) := do
  if let some draft := p.current then
    throw ⟨lineCount, .unterminatedFunction (draft.function.getD "")⟩
  let top ← p.top.finish
  let children := (List.range p.functions.length).map fun i => UInt32.ofNat (i + 1)
  return { top with children } :: p.functions

end Progress

/-- The units of `source`, attributed to `filename`. -/
def assemble (source filename : String) : Except Error (List CodeUnit) := do
  let lines := Text.lines source.toList
  let p ← (lines.zipIdx 1).foldlM (Progress.line filename) (Progress.start filename)
  p.finish lines.length

end ModuleHost.Assembly
