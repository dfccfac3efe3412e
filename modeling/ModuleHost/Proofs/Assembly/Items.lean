import ModuleHost.Proofs.Assembly.Calls
import Mathlib.Data.List.Forall2

/-!
# What a unit is assembled from

A unit comes from a row of items, each on a line of its own: operations, which become instructions,
and labels, which stand between them.  A draft holds the items that it has been given so far
(`Draft.Holds`), and a complete unit holds all of its items: every operation has become an
instruction in its place, the jumps lead to where their labels stand, and the only other
instructions are those that end the unit (`CodeUnit.Holds`).
-/

namespace ModuleHost.Assembly

/-- What a line of a unit can say. -/
inductive Item where
  | label (name : String)
  | operation (op : Operation)
deriving DecidableEq, Repr

/-! ### Items -/

def operationsIn : List (Item × Nat) → List (Operation × Nat)
  | [] => []
  | (.label _, _) :: items => operationsIn items
  | (.operation op, line) :: items => (op, line) :: operationsIn items

/-- Each label with the number of operations before it, of which there are `count` before the first
item. -/
def labelsFrom (count : Nat) : List (Item × Nat) → List (String × Nat)
  | [] => []
  | (.label name, _) :: items => (name, count) :: labelsFrom count items
  | (.operation _, _) :: items => labelsFrom (count + 1) items

/-- Each label with the number of operations before it. -/
def labelsIn (items : List (Item × Nat)) : List (String × Nat) := labelsFrom 0 items

def jumpsFrom (start : Nat) : List (Operation × Nat) → List OpenJump
  | [] => []
  | (op, line) :: ops =>
    match op.reference with
    | .label label => { position := start, label, line } :: jumpsFrom (start + 1) ops
    | _ => jumpsFrom (start + 1) ops

def Closed (items : List (Item × Nat)) : Prop :=
  ∀ op ∈ operationsIn items, ∀ name, op.1.reference = .label name →
    (labelsIn items).lookup name ≠ none

/-- The first of the operations that jumps to none of the labels stands on this line, and this is
the label that is missing. -/
def Astray (labels : List (String × Nat)) (ops : List (Operation × Nat)) (line : Nat)
    (name : String) : Prop :=
  ∃ before op after, ops = before ++ (op, line) :: after ∧ op.reference = .label name
    ∧ labels.lookup name = none
    ∧ ∀ op' ∈ before, ∀ name', op'.1.reference = .label name' → labels.lookup name' ≠ none

def lastLineOf (items : List (Item × Nat)) : Nat := (items.getLast?.map Prod.snd).getD 0

theorem operationsIn_append (items items' : List (Item × Nat)) :
    operationsIn (items ++ items') = operationsIn items ++ operationsIn items' := by
  induction items with
  | nil => rfl
  | cons item items ih =>
    obtain ⟨item, line⟩ := item
    cases item with
    | label name => exact ih
    | operation op => exact congrArg ((op, line) :: ·) ih

theorem labelsFrom_append (count : Nat) (items items' : List (Item × Nat)) :
    labelsFrom count (items ++ items')
      = labelsFrom count items ++ labelsFrom (count + (operationsIn items).length) items' := by
  induction items generalizing count with
  | nil => rfl
  | cons item items ih =>
    obtain ⟨item, line⟩ := item
    cases item with
    | label name => exact congrArg ((name, count) :: ·) (ih count)
    | operation op =>
      refine (ih (count + 1)).trans ?_
      rw [operationsIn, List.length_cons, Nat.add_right_comm, Nat.add_assoc]
      rfl

theorem jumpsFrom_append (start : Nat) (ops ops' : List (Operation × Nat)) :
    jumpsFrom start (ops ++ ops') = jumpsFrom start ops ++ jumpsFrom (start + ops.length) ops' := by
  induction ops generalizing start with
  | nil => rfl
  | cons op ops ih =>
    obtain ⟨op, line⟩ := op
    have hrest := ih (start + 1)
    rw [Nat.add_right_comm, Nat.add_assoc] at hrest
    rw [List.cons_append, jumpsFrom, jumpsFrom, hrest]
    cases op.reference <;> rfl

theorem Astray.not_closed {items : List (Item × Nat)} {line : Nat} {name : String}
    (h : Astray (labelsIn items) (operationsIn items) line name) : ¬ Closed items := by
  obtain ⟨before, op, after, heq, href, hnone, -⟩ := h
  intro hclosed
  refine hclosed (op, line) ?_ name href hnone
  rw [heq]
  exact List.mem_append_right before List.mem_cons_self

/-- Behind an operation that does not go astray. -/
theorem Astray.cons {labels : List (String × Nat)} {ops : List (Operation × Nat)} {line : Nat}
    {name : String} (h : Astray labels ops line name) {op : Operation × Nat}
    (hop : ∀ name', op.1.reference = .label name' → labels.lookup name' ≠ none) :
    Astray labels (op :: ops) line name := by
  obtain ⟨before, op', after, rfl, href, hnone, hbefore⟩ := h
  exact ⟨op :: before, op', after, rfl, href, hnone, List.forall_mem_cons.2 ⟨hop, hbefore⟩⟩

theorem lastLineOf_concat (items : List (Item × Nat)) (item : Item) (line : Nat) :
    lastLineOf (items ++ [(item, line)]) = line := by
  rw [lastLineOf, List.getLast?_concat]
  rfl

theorem mem_of_mem_operationsIn {op : Operation × Nat} {items : List (Item × Nat)}
    (h : op ∈ operationsIn items) : (.operation op.1, op.2) ∈ items := by
  induction items with
  | nil => cases h
  | cons item items ih =>
    obtain ⟨item, line⟩ := item
    cases item with
    | label name => exact List.mem_cons_of_mem _ (ih h)
    | operation op' =>
      rcases List.mem_cons.1 h with rfl | h
      · exact List.mem_cons_self
      · exact List.mem_cons_of_mem _ (ih h)

theorem length_operationsIn_le (items : List (Item × Nat)) :
    (operationsIn items).length ≤ items.length := by
  induction items with
  | nil => exact Nat.le_refl 0
  | cons item items ih =>
    obtain ⟨item, line⟩ := item
    cases item with
    | label name => exact Nat.le_succ_of_le ih
    | operation op => exact Nat.succ_le_succ ih

/-- No label stands behind more operations than there are. -/
theorem le_of_lookup_labelsFrom {count target : Nat} {items : List (Item × Nat)} {name : String}
    (h : (labelsFrom count items).lookup name = some target) :
    target ≤ count + (operationsIn items).length := by
  induction items generalizing count with
  | nil => cases h
  | cons item items ih =>
    obtain ⟨item, line⟩ := item
    cases item with
    | label other =>
      rw [labelsFrom, List.lookup_cons] at h
      split at h
      · cases h
        exact Nat.le_add_right _ _
      · exact ih h
    | operation op =>
      have hle := ih h
      rw [operationsIn, List.length_cons]
      omega

/-! ### Drafts -/

/-- How an operation stands in a draft with these symbols: a jump has no target yet. -/
def Operation.Open (symbols : List String) (op : Operation) (i : Instruction) : Prop :=
  match op.reference with
  | .symbol text => ∃ k, symbols[k]? = some text ∧ i = { op.instruction with imm := Int32.ofNat k }
  | _ => i = op.instruction

theorem Operation.Open.mono {symbols : List String} {op : Operation} {i : Instruction}
    (h : op.Open symbols i) (new : List String) : op.Open (symbols ++ new) i := by
  unfold Operation.Open at h ⊢
  split
  · next text heq =>
    rw [heq] at h
    obtain ⟨k, hk, hi⟩ := h
    exact ⟨k, getElem?_append_of_eq_some hk new, hi⟩
  · next hne =>
    split at h
    · next text heq => exact absurd heq (hne text)
    · exact h

/-- The draft of a function, or of the top level, has been given these items. -/
structure Draft.Holds (d : Draft) (filename : String) (function : Option String)
    (items : List (Item × Nat)) : Prop where
  filename : d.unit.filename = some filename
  children : d.unit.children = []
  instructions : List.Forall₂ (fun op i => op.1.Open d.unit.symbols i) (operationsIn items)
    d.unit.instructions
  lines : d.unit.lines = (operationsIn items).map fun op => UInt32.ofNat op.2
  nodup : d.unit.symbols.Nodup
  few : d.unit.symbols.length ≤ (operationsIn items).length
  labels : d.labels = labelsIn items
  jumps : d.jumps = jumpsFrom 0 (operationsIn items)
  function : d.function = function
  lastLine : d.lastLine = lastLineOf items

variable {d d' : Draft} {filename : String} {function : Option String} {items : List (Item × Nat)}

theorem Draft.holds_start (filename : String) (function : Option String) :
    (Draft.start filename function).Holds filename function [] where
  filename := rfl
  children := rfl
  instructions := .nil
  lines := rfl
  nodup := List.nodup_nil
  few := Nat.le_refl 0
  labels := rfl
  jumps := rfl
  function := rfl
  lastLine := rfl

/-- What placing an operation does to a draft. -/
theorem Draft.place_cases (d : Draft) (op : Operation) (line : Nat) :
    ∃ new i, op.Open (d.unit.symbols ++ new) i ∧ new.length ≤ 1
      ∧ (d.unit.symbols.Nodup → (d.unit.symbols ++ new).Nodup)
      ∧ d.place op line = { d with
          unit := { d.unit with
            instructions := d.unit.instructions ++ [i]
            lines := d.unit.lines ++ [UInt32.ofNat line]
            symbols := d.unit.symbols ++ new }
          jumps := d.jumps ++ jumpsFrom d.unit.instructions.length [(op, line)]
          lastLine := line } := by
  unfold Draft.place Operation.Open jumpsFrom jumpsFrom
  cases op.reference with
  | literal =>
    refine ⟨[], op.instruction, rfl, Nat.zero_le 1, ?_, ?_⟩
    · rw [List.append_nil]
      exact id
    · simp only [List.append_nil]
      rfl
  | label name =>
    refine ⟨[], op.instruction, rfl, Nat.zero_le 1, ?_, ?_⟩
    · rw [List.append_nil]
      exact id
    · simp only [List.append_nil]
      rfl
  | symbol text =>
    obtain ⟨new, k, hintern, hk, hlen, _⟩ := d.unit.intern_eq text
    have hnodup : d.unit.symbols.Nodup → (d.unit.intern text).1.symbols.Nodup :=
      fun h => CodeUnit.nodup_intern h text
    rw [hintern] at hnodup
    refine ⟨new, _, ⟨k, hk, rfl⟩, hlen, hnodup, ?_⟩
    simp only [Draft.emitSymbol, hintern, List.append_nil]
    rfl

theorem Draft.Holds.place (h : d.Holds filename function items) (op : Operation) (line : Nat) :
    (d.place op line).Holds filename function (items ++ [(.operation op, line)]) := by
  obtain ⟨new, i, hi, hlen, hnodup, heq⟩ := d.place_cases op line
  have hoperations : operationsIn (items ++ [(.operation op, line)])
      = operationsIn items ++ [(op, line)] := operationsIn_append _ _
  have hlength := h.instructions.length_eq
  rw [heq]
  constructor
  · exact h.filename
  · exact h.children
  · rw [hoperations]
    exact List.rel_append (h.instructions.imp fun op i ho => ho.mono new) (.cons hi .nil)
  · rw [hoperations, List.map_append]
    exact congrArg (· ++ [UInt32.ofNat line]) h.lines
  · exact hnodup h.nodup
  · rw [hoperations, List.length_append, List.length_append]
    exact Nat.add_le_add h.few hlen
  · refine h.labels.trans ?_
    rw [labelsIn, labelsIn, labelsFrom_append]
    exact (List.append_nil _).symm
  · rw [hoperations, jumpsFrom_append, Nat.zero_add]
    show d.jumps ++ _ = _
    rw [h.jumps, hlength]
  · exact h.function
  · exact (lastLineOf_concat _ _ _).symm

/-- A label is defined where there is none of its name. -/
theorem Draft.Holds.defineLabel (h : d.Holds filename function items) (label : String)
    (line : Nat) :
    ((labelsIn items).lookup label = none
        ∧ ∃ d', d.defineLabel label line = .ok d'
          ∧ d'.Holds filename function (items ++ [(.label label, line)]))
      ∨ ((labelsIn items).lookup label ≠ none
        ∧ d.defineLabel label line = .error ⟨line, .duplicateLabel label⟩) := by
  have hoperations : operationsIn (items ++ [(.label label, line)]) = operationsIn items := by
    rw [operationsIn_append]
    exact List.append_nil _
  rw [← h.labels]
  unfold Draft.defineLabel
  cases hl : d.labels.lookup label with
  | some target => exact Or.inr ⟨by simp, rfl⟩
  | none =>
    refine Or.inl ⟨rfl, _, rfl, ?_⟩
    constructor
    · exact h.filename
    · exact h.children
    · rw [hoperations]
      exact h.instructions
    · rw [hoperations]
      exact h.lines
    · exact h.nodup
    · rw [hoperations]
      exact h.few
    · rw [labelsIn, labelsFrom_append, Nat.zero_add, h.instructions.length_eq]
      exact congrArg (· ++ [(label, d.unit.instructions.length)]) h.labels
    · rw [hoperations]
      exact h.jumps
    · exact h.function
    · exact (lastLineOf_concat _ _ _).symm

/-! ### Complete units -/

def Operation.Becomes (symbols : List String) (labels : List (String × Nat)) (op : Operation)
    (i : Instruction) : Prop :=
  match op.reference with
  | .literal => i = op.instruction
  | .symbol text => ∃ k, symbols[k]? = some text ∧ i = { op.instruction with imm := Int32.ofNat k }
  | .label name => ∃ target, labels.lookup name = some target
      ∧ i = { op.instruction with imm := Int32.ofNat target }

/-- The instructions that end a unit when its own operations do not: a halt at the top level,
`nil r0` and `ret r0` in a function. -/
def closingOf (function : Option String) (ops : List (Operation × Nat)) : List Instruction :=
  let last? := ops.getLast?.map (·.1.instruction.opcode)
  match function with
  | none => if last? = some .halt then [] else [{ opcode := .halt }]
  | some _ => if last? = some .ret then [] else [{ opcode := .loadNil }, { opcode := .ret }]

end Assembly

open Assembly

/-- The unit of a function, or of the top level, is the code of these items. -/
structure CodeUnit.Holds (u : CodeUnit) (filename : String) (function : Option String)
    (items : List (Item × Nat)) : Prop where
  filename : u.filename = some filename
  instructions : ∃ is, u.instructions = is ++ closingOf function (operationsIn items)
    ∧ List.Forall₂ (fun op i => op.1.Becomes u.symbols (labelsIn items) i) (operationsIn items) is
  lines : u.lines = ((operationsIn items).map Prod.snd
    ++ List.replicate (closingOf function (operationsIn items)).length (lastLineOf items)).map
      UInt32.ofNat
  nodup : u.symbols.Nodup
  few : u.symbols.length ≤ (operationsIn items).length

namespace Assembly

variable {d : Draft} {filename : String} {function : Option String} {items : List (Item × Nat)}
  {symbols : List String} {labels : List (String × Nat)} {op : Operation} {i : Instruction}

theorem Operation.Becomes.opcode (h : op.Becomes symbols labels i) :
    i.opcode = op.instruction.opcode := by
  unfold Operation.Becomes at h
  split at h
  · rw [h]
  · obtain ⟨k, -, rfl⟩ := h
    rfl
  · obtain ⟨target, -, rfl⟩ := h
    rfl

theorem opcodes_of_becomes {ops : List (Operation × Nat)} {is : List Instruction}
    (h : List.Forall₂ (fun op i => op.1.Becomes symbols labels i) ops is) :
    is.map (·.opcode) = ops.map (·.1.instruction.opcode) := by
  induction h with
  | nil => rfl
  | cons hb _ ih => rw [List.map_cons, List.map_cons, hb.opcode, ih]

/-- The label of a jump that has become an instruction is there. -/
theorem Operation.Becomes.lookup_ne_none (h : op.Becomes symbols labels i) {name : String}
    (href : op.reference = .label name) : labels.lookup name ≠ none := by
  rw [Operation.Becomes, href] at h
  obtain ⟨target, htarget, -⟩ := h
  rw [htarget]
  exact Option.some_ne_none target

theorem lookup_of_becomes {ops : List (Operation × Nat)} {is : List Instruction}
    (h : List.Forall₂ (fun op i => op.1.Becomes symbols labels i) ops is) :
    ∀ op ∈ ops, ∀ name, op.1.reference = .label name → labels.lookup name ≠ none := by
  induction h with
  | nil =>
    intro op hop
    cases hop
  | cons hb _ ih =>
    intro op hop name href
    rcases List.mem_cons.1 hop with rfl | hop
    · exact hb.lookup_ne_none href
    · exact ih op hop name href

theorem modify_append_cons {α : Type} (before : List α) (a : α) (after : List α) (f : α → α) :
    (before ++ a :: after).modify before.length f = before ++ f a :: after := by
  induction before with
  | nil => rfl
  | cons b before ih => exact congrArg (b :: ·) ih

/-- The jumps of a row of operations are resolved, unless the label of one of them is missing. -/
theorem resolve_jumps (labels : List (String × Nat)) (u : CodeUnit)
    (ops : List (Operation × Nat)) (before is : List Instruction)
    (h : List.Forall₂ (fun op i => op.1.Open u.symbols i) ops is) :
    (∃ is', (jumpsFrom before.length ops).foldlM (Draft.resolve labels)
          { u with instructions := before ++ is } = .ok { u with instructions := before ++ is' }
        ∧ List.Forall₂ (fun op i => op.1.Becomes u.symbols labels i) ops is')
      ∨ ∃ line name, Astray labels ops line name
        ∧ (jumpsFrom before.length ops).foldlM (Draft.resolve labels)
          { u with instructions := before ++ is } = .error ⟨line, .undefinedLabel name⟩ := by
  induction h generalizing before with
  | nil => exact Or.inl ⟨[], rfl, .nil⟩
  | @cons op i ops is ho _ ih =>
    obtain ⟨op, line⟩ := op
    -- the first operation has become `j`, and the others are behind it
    have hrest : ∀ j : Instruction, op.Becomes u.symbols labels j →
        (∃ is', (jumpsFrom (before.length + 1) ops).foldlM (Draft.resolve labels)
              { u with instructions := before ++ j :: is }
              = .ok { u with instructions := before ++ is' }
            ∧ List.Forall₂ (fun op i => op.1.Becomes u.symbols labels i) ((op, line) :: ops) is')
          ∨ ∃ line' name, Astray labels ((op, line) :: ops) line' name
            ∧ (jumpsFrom (before.length + 1) ops).foldlM (Draft.resolve labels)
              { u with instructions := before ++ j :: is }
              = .error ⟨line', .undefinedLabel name⟩ := by
      intro j hj
      have hih := ih (before ++ [j])
      simp only [List.length_append, List.length_singleton, List.append_assoc,
        List.singleton_append] at hih
      rcases hih with ⟨is', hfold, hbecomes⟩ | ⟨line', name, hastray, hfold⟩
      · exact Or.inl ⟨j :: is', hfold, .cons hj hbecomes⟩
      · exact Or.inr ⟨line', name, hastray.cons fun _ => hj.lookup_ne_none, hfold⟩
    have hbecomes := hrest i
    unfold Operation.Open at ho
    unfold Operation.Becomes at hbecomes
    cases href : op.reference with
    | literal =>
      rw [href] at ho hbecomes
      rw [jumpsFrom, href]
      exact hbecomes ho
    | symbol text =>
      rw [href] at ho hbecomes
      rw [jumpsFrom, href]
      exact hbecomes ho
    | label name =>
      rw [href] at ho
      obtain rfl : i = op.instruction := ho
      rw [jumpsFrom, href]
      dsimp only
      rw [List.foldlM_cons, Draft.resolve]
      cases hl : labels.lookup name with
      | none => exact Or.inr ⟨line, name, ⟨[], op, ops, rfl, href, hl, nofun⟩, rfl⟩
      | some target =>
        have hj := hrest { op.instruction with imm := Int32.ofNat target } (by
          rw [Operation.Becomes, href]
          exact ⟨target, hl, rfl⟩)
        dsimp only
        rw [modify_append_cons]
        exact hj

theorem foldl_push (u : CodeUnit) (is : List Instruction) (line : UInt32) :
    is.foldl (fun u i => u.push i line) u = { u with
      instructions := u.instructions ++ is
      lines := u.lines ++ List.replicate is.length line } := by
  induction is generalizing u with
  | nil => rw [List.foldl_nil, List.append_nil, List.length_nil, List.replicate_zero,
      List.append_nil]
  | cons i is ih =>
    rw [List.foldl_cons, ih]
    simp only [CodeUnit.push, List.append_assoc, List.singleton_append, List.length_cons,
      List.replicate_succ]

end Assembly

theorem CodeUnit.Holds.closed {u : CodeUnit} {filename : String} {function : Option String}
    {items : List (Item × Nat)} (h : u.Holds filename function items) : Closed items := by
  obtain ⟨is, -, hbecomes⟩ := h.instructions
  exact lookup_of_becomes hbecomes

namespace Assembly

variable {d : Draft} {filename : String} {function : Option String} {items : List (Item × Nat)}

/-- A draft becomes a unit that holds its items, unless the label of a jump is missing; then the
first such jump is reported. -/
theorem Draft.Holds.finish (h : d.Holds filename function items) :
    (∃ u, d.finish = .ok u ∧ u.Holds filename function items ∧ u.children = [])
      ∨ ∃ line name, Astray (labelsIn items) (operationsIn items) line name
        ∧ d.finish = .error ⟨line, .undefinedLabel name⟩ := by
  have hresolved := resolve_jumps d.labels d.unit (operationsIn items) [] d.unit.instructions
    h.instructions
  rw [List.length_nil, ← h.jumps] at hresolved
  unfold Draft.finish
  rcases hresolved with ⟨is, hfold, hbecomes⟩ | ⟨line, name, hastray, hfold⟩
  · have hfold' : d.jumps.foldlM (Draft.resolve d.labels) d.unit
        = .ok { d.unit with instructions := is } := hfold
    have hlast : is.getLast?.map (·.opcode)
        = (operationsIn items).getLast?.map (·.1.instruction.opcode) := by
      rw [← List.getLast?_map, opcodes_of_becomes hbecomes, List.getLast?_map]
    have hclosing : d.closing { d.unit with instructions := is }
        = closingOf function (operationsIn items) := by
      unfold Draft.closing closingOf
      rw [h.function]
      cases function with
      | none =>
        exact congrArg (fun last? => if last? = some Opcode.halt then []
          else [({ opcode := .halt } : Instruction)]) hlast
      | some name =>
        exact congrArg (fun last? => if last? = some Opcode.ret then []
          else [({ opcode := .loadNil } : Instruction), { opcode := .ret }]) hlast
    rw [hfold']
    show (∃ u, Except.ok _ = _ ∧ _) ∨ _
    rw [hclosing, foldl_push, h.lastLine]
    refine Or.inl ⟨_, rfl, ⟨h.filename, ⟨is, rfl, ?_⟩, ?_, h.nodup, h.few⟩, h.children⟩
    · rw [← h.labels]
      exact hbecomes
    · show d.unit.lines ++ _ = _
      rw [h.lines, List.map_append, List.map_map, List.map_replicate]
      rfl
  · refine Or.inr ⟨line, name, h.labels ▸ hastray, ?_⟩
    rw [show d.jumps.foldlM (Draft.resolve d.labels) d.unit
      = .error ⟨line, .undefinedLabel name⟩ from hfold]
    rfl

end Assembly

/-! ### Numbers that fit -/

namespace CodeUnit

variable {u : CodeUnit} {filename : String} {function : Option String} {items : List (Item × Nat)}

/-- The immediate of the instruction is what the operation refers to: the index of a symbol, the
number of operations before a label, or what the operation itself has. -/
def Refers (u : CodeUnit) (labels : List (String × Nat)) (op : Operation) (i : Instruction) : Prop :=
  match op.reference with
  | .literal => i.imm = op.instruction.imm
  | .symbol text => u.symbol? i.imm = some text
  | .label name => ∃ target, labels.lookup name = some target ∧ i.imm.toInt = target

/-- The operations of a unit that is not too long refer to what they name. -/
theorem Holds.refers (h : u.Holds filename function items)
    (hfew : (operationsIn items).length < 0x80000000) {op : Operation} {i : Instruction}
    (hb : op.Becomes u.symbols (labelsIn items) i) : u.Refers (labelsIn items) op i := by
  unfold Operation.Becomes at hb
  unfold Refers
  cases hreference : op.reference with
  | literal =>
    rw [hreference] at hb
    exact congrArg Instruction.imm hb
  | symbol text =>
    rw [hreference] at hb
    obtain ⟨k, hk, rfl⟩ := hb
    have hlt : k < u.symbols.length := (List.getElem?_eq_some_iff.1 hk).1
    exact symbol?_ofNat hk (Nat.lt_of_lt_of_le hlt (Nat.le_trans h.few (Nat.le_of_lt hfew)))
  | label name =>
    rw [hreference] at hb
    obtain ⟨target, htarget, rfl⟩ := hb
    have hle := le_of_lookup_labelsFrom htarget
    rw [Nat.zero_add] at hle
    exact ⟨target, htarget, Int32.toInt_ofNat_of_lt (Nat.lt_of_le_of_lt hle hfew)⟩

/-- The immediates and the lines of a unit are the numbers that they stand for. -/
structure Exact (u : CodeUnit) (items : List (Item × Nat)) : Prop where
  immediates : List.Forall₂ (fun op i => u.Refers (labelsIn items) op.1 i) (operationsIn items)
    (u.instructions.take (operationsIn items).length)
  lines : (u.lines.take (operationsIn items).length).map UInt32.toNat
    = (operationsIn items).map Prod.snd

theorem Holds.exact (h : u.Holds filename function items)
    (hfew : (operationsIn items).length < 0x80000000) (hlines : ∀ item ∈ items, item.2 < 0x100000000) :
    u.Exact items where
  immediates := by
    obtain ⟨is, heq, hbecomes⟩ := h.instructions
    rw [heq, hbecomes.length_eq, List.take_left]
    exact hbecomes.imp fun op i hb => h.refers hfew hb
  lines := by
    have hlength : ((operationsIn items).map Prod.snd).length = (operationsIn items).length :=
      List.length_map _
    rw [h.lines, List.map_append, List.take_left' ((List.length_map _).trans hlength),
      List.map_map]
    refine (List.map_congr_left fun line hline => ?_).trans (List.map_id _)
    obtain ⟨op, hop, rfl⟩ := List.mem_map.1 hline
    exact UInt32.toNat_ofNat_of_lt' (hlines _ (mem_of_mem_operationsIn hop))

end CodeUnit

end ModuleHost
