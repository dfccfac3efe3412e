import ModuleHost.Assembly.Program

/-!
# The name of a source

The file that a source is assembled for is written on its units and is of no other use: it decides
neither whether the source is refused nor what else is in the units (`assemble_named`).
-/

namespace ModuleHost

def CodeUnit.named (filename : String) (u : CodeUnit) : CodeUnit :=
  { u with filename := some filename }

namespace Assembly

/-- What commutes with every step commutes with all of them. -/
theorem foldlM_map {α β ε : Type} {f f' : β → α → Except ε β} {g : β → β}
    (h : ∀ b a, f' (g b) a = (f b a).map g) (b : β) (xs : List α) :
    xs.foldlM f' (g b) = (xs.foldlM f b).map g := by
  induction xs generalizing b with
  | nil => rfl
  | cons x xs ih =>
    rw [List.foldlM_cons, List.foldlM_cons, h]
    cases f b x with
    | error e => rfl
    | ok b' => exact ih b'

theorem bind_map {α β ε : Type} {x : Except ε α} {f f' : α → Except ε β} {g : β → β}
    (h : ∀ a, f' a = (f a).map g) : (x >>= f') = (x >>= f).map g := by
  cases x with
  | error e => rfl
  | ok a => exact h a

variable (filename : String)

/-! ### Drafts -/

namespace Draft

def named (d : Draft) : Draft := { d with unit := d.unit.named filename }

variable (d : Draft)

theorem named_emitSymbol (i : Instruction) (symbol : String) (line : Nat) :
    (d.named filename).emitSymbol i symbol line = (d.emitSymbol i symbol line).named filename := by
  have hintern : (d.unit.named filename).intern symbol
      = ((d.unit.intern symbol).1.named filename, (d.unit.intern symbol).2) := by
    unfold CodeUnit.intern
    rw [show (d.unit.named filename).symbols = d.unit.symbols from rfl]
    cases d.unit.symbols.idxOf? symbol <;> rfl
  unfold emitSymbol
  rw [show (d.named filename).unit.intern symbol = _ from hintern]
  rfl

theorem named_place (op : Operation) (line : Nat) :
    (d.named filename).place op line = (d.place op line).named filename := by
  unfold place
  cases op.reference with
  | literal => rfl
  | symbol text => exact named_emitSymbol filename d op.instruction text line
  | label label => rfl

theorem named_defineLabel (label : String) (line : Nat) :
    (d.named filename).defineLabel label line
      = (d.defineLabel label line).map (named filename) := by
  unfold defineLabel
  rw [show (d.named filename).labels = d.labels from rfl]
  cases d.labels.lookup label <;> rfl

theorem named_finish :
    (d.named filename).finish = d.finish.map (CodeUnit.named filename) := by
  have hresolve : ∀ u jump, resolve d.labels (u.named filename) jump
      = (resolve d.labels u jump).map (CodeUnit.named filename) := by
    intro u jump
    unfold resolve
    cases d.labels.lookup jump.label <;> rfl
  have hpush : ∀ (is : List Instruction) (u : CodeUnit),
      is.foldl (fun u i => u.push i (UInt32.ofNat d.lastLine)) (u.named filename)
        = (is.foldl (fun u i => u.push i (UInt32.ofNat d.lastLine)) u).named filename := by
    intro is
    induction is with
    | nil => exact fun _ => rfl
    | cons i is ih => exact fun u => ih (u.push i (UInt32.ofNat d.lastLine))
  unfold finish
  rw [show (d.named filename).jumps.foldlM (resolve (d.named filename).labels)
    (d.named filename).unit = _ from foldlM_map hresolve d.unit d.jumps]
  cases d.jumps.foldlM (resolve d.labels) d.unit with
  | error e => rfl
  | ok u => exact congrArg Except.ok (hpush (d.closing u) u)

end Draft

/-! ### Sources -/

namespace Progress

def named (p : Progress) : Progress where
  top := p.top.named filename
  functions := p.functions.map (CodeUnit.named filename)
  current := p.current.map (Draft.named filename)

variable (p : Progress)

theorem named_onDraft {change : Draft → Except Error Draft}
    (h : ∀ d, change (d.named filename) = (change d).map (Draft.named filename)) :
    (p.named filename).onDraft change = (p.onDraft change).map (named filename) := by
  obtain ⟨top, functions, current⟩ := p
  cases current with
  | none =>
    show (change (top.named filename)).map _ = ((change top).map _).map _
    rw [h]
    cases change top <;> rfl
  | some d =>
    show (change (d.named filename)).map _ = ((change d).map _).map _
    rw [h]
    cases change d <;> rfl

theorem named_startFunction (old : String) (word? : Option (List Char)) (line : Nat) :
    (p.named filename).startFunction filename word? line
      = (p.startFunction old word? line).map (named filename) := by
  obtain ⟨top, functions, current⟩ := p
  cases current with
  | some d => rfl
  | none =>
    cases word? with
    | none => rfl
    | some word =>
      refine bind_map fun function => ?_
      by_cases hmany : functions.length ≥ 256
      · simp [named, hmany, bind, Except.bind, Except.map, throw, throwThe, MonadExceptOf.throw]
      · simp [named, hmany, Except.map, pure, Except.pure, Draft.named_emitSymbol]
        rfl

theorem named_endFunction (line : Nat) :
    (p.named filename).endFunction line = (p.endFunction line).map (named filename) := by
  obtain ⟨top, functions, current⟩ := p
  cases current with
  | none => rfl
  | some d =>
    show ((d.named filename).finish >>= fun unit => _) = (d.finish >>= fun unit => _).map _
    rw [Draft.named_finish]
    cases d.finish with
    | error e => rfl
    | ok u =>
      refine congrArg Except.ok ?_
      simp [named]

theorem named_statement (old : String) (line : Nat) (s : Statement) :
    (p.named filename).statement filename line s
      = (p.statement old line s).map (named filename) := by
  cases s with
  | blank => rfl
  | functionStart word? => exact named_startFunction filename p old word? line
  | functionEnd => exact named_endFunction filename p line
  | label label => exact named_onDraft filename p fun d => d.named_defineLabel filename label line
  | operation op =>
    exact named_onDraft filename p fun d => congrArg Except.ok (d.named_place filename op line)

theorem named_line (old : String) (numbered : List Char × Nat) :
    (p.named filename).line filename numbered = (p.line old numbered).map (named filename) := by
  unfold line
  cases Statement.ofLine numbered.1 with
  | error fault => rfl
  | ok s => exact named_statement filename p old numbered.2 s

theorem named_finish (lineCount : Nat) :
    (p.named filename).finish lineCount
      = (p.finish lineCount).map (List.map (CodeUnit.named filename)) := by
  obtain ⟨top, functions, current⟩ := p
  cases current with
  | some d => rfl
  | none =>
    show ((top.named filename).finish >>= fun unit => _) = (top.finish >>= fun unit => _).map _
    rw [Draft.named_finish]
    cases top.finish with
    | error e => rfl
    | ok u =>
      refine congrArg Except.ok ?_
      simp [named, CodeUnit.named]

end Progress

/-- Assembled for another file, a source is refused for the same fault or comes to the same units,
attributed to that file. -/
theorem assemble_named (source filename filename' : String) :
    assemble source filename'
      = (assemble source filename).map (List.map (CodeUnit.named filename')) := by
  unfold assemble
  have hlines := foldlM_map (fun p numbered => Progress.named_line filename' p filename numbered)
    (Progress.start filename) ((Text.lines source.toList).zipIdx 1)
  dsimp only
  rw [show Progress.start filename' = (Progress.start filename).named filename' from rfl, hlines]
  cases ((Text.lines source.toList).zipIdx 1).foldlM (Progress.line filename)
    (Progress.start filename) with
  | error e => rfl
  | ok p => exact Progress.named_finish filename' p _

end Assembly

end ModuleHost
