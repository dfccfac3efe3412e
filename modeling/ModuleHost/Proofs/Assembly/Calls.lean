import ModuleHost.Assembly.Program
import Mathlib.Data.List.Basic

/-!
# Sources made of calls

A source can consist of nothing but calls that hand one text to one function each: the text goes
into a register and the register to the function.  Which registers these are, and the blanks, the
comments and the empty lines in between, make no difference.  Such a source is assembled into a
single unit that codes the calls in their order and ends in a halt (`assemble_calls`).
-/

namespace ModuleHost.Assembly

structure TextCall where
  function : String
  text : String
deriving DecidableEq, Repr

/-- The operations of several calls in a row. -/
inductive Spelled : List TextCall → List Operation → Prop
  | nil : Spelled [] []
  | cons {c : TextCall} {calls : List TextCall} {ops : List Operation} {r q : UInt8}
      (hr : r < 32) (hq : q < 32) (h : Spelled calls ops) :
      Spelled (c :: calls)
        ({ instruction := { opcode := .loadStr, dest := r }, reference := .symbol c.text }
          :: { instruction := { opcode := .call, dest := q, src1 := r, mode := 1 }
               reference := .symbol c.function } :: ops)

/-- The operations among statements that are operations and blank lines only. -/
def operationsOf? : List Statement → Option (List Operation)
  | [] => some []
  | .blank :: statements => operationsOf? statements
  | .operation op :: statements => (operationsOf? statements).map (op :: ·)
  | _ :: _ => none

def MakesCalls (source : String) (calls : List TextCall) : Prop :=
  ∃ statements ops, (Text.lines source.toList).mapM Statement.ofLine = .ok statements
    ∧ operationsOf? statements = some ops ∧ Spelled calls ops

/-- The instructions of several calls in a row, in a unit with these symbols. -/
inductive Coded (symbols : List String) : List TextCall → List Instruction → Prop
  | nil : Coded symbols [] []
  | cons {c : TextCall} {calls : List TextCall} {is : List Instruction} {r q : UInt8} {i j : Nat}
      (hr : r < 32) (hq : q < 32) (hi : symbols[i]? = some c.text)
      (hj : symbols[j]? = some c.function) (h : Coded symbols calls is) :
      Coded symbols (c :: calls)
        ({ opcode := .loadStr, dest := r, imm := Int32.ofNat i }
          :: { opcode := .call, dest := q, src1 := r, mode := 1, imm := Int32.ofNat j } :: is)

variable {calls : List TextCall} {ops : List Operation} {d d' d'' : Draft}
  {is is' : List Instruction} {new new' : List String}

theorem Coded.length {symbols : List String} (h : Coded symbols calls is) :
    is.length = 2 * calls.length := by
  induction h with
  | nil => rfl
  | cons _ _ _ _ _ ih =>
    simp only [List.length_cons, ih]
    omega

/-- No call is a halt. -/
theorem Coded.getLast? {symbols : List String} (h : Coded symbols calls is) :
    is.getLast?.map (·.opcode) ≠ some .halt := by
  have hall : ∀ i ∈ is, i.opcode ≠ .halt := by
    induction h with
    | nil =>
      intro i hi
      cases hi
    | cons _ _ _ _ _ ih =>
      intro i hi
      rcases List.mem_cons.1 hi with rfl | hi
      · simp
      rcases List.mem_cons.1 hi with rfl | hi
      · simp
      · exact ih i hi
  intro hlast
  obtain ⟨i, hi, hop⟩ := Option.map_eq_some_iff.1 hlast
  exact hall i (List.mem_of_getLast? hi) hop

theorem Coded.split {symbols : List String} {before after : List TextCall}
    (h : Coded symbols (before ++ after) is) :
    ∃ is₁ is₂, is = is₁ ++ is₂ ∧ Coded symbols before is₁ ∧ Coded symbols after is₂ := by
  induction before generalizing is with
  | nil => exact ⟨[], is, rfl, .nil, h⟩
  | cons c before ih =>
    cases h with
    | cons hr hq hi hj h =>
      obtain ⟨is₁, is₂, rfl, h₁, h₂⟩ := ih h
      exact ⟨_, is₂, rfl, .cons hr hq hi hj h₁, h₂⟩

/-! ### Placing operations -/

theorem getElem?_append_of_eq_some {s : String} {symbols : List String} {i : Nat}
    (h : symbols[i]? = some s) (more : List String) : (symbols ++ more)[i]? = some s := by
  rw [List.getElem?_append_left (List.getElem?_eq_some_iff.1 h).1, h]

structure Draft.Grown (d : Draft) (is : List Instruction) (new : List String) (d' : Draft) :
    Prop where
  instructions : d'.unit.instructions = d.unit.instructions ++ is
  symbols : d'.unit.symbols = d.unit.symbols ++ new
  filename : d'.unit.filename = d.unit.filename
  children : d'.unit.children = d.unit.children
  jumps : d'.jumps = d.jumps
  function : d'.function = d.function

theorem Draft.Grown.refl (d : Draft) : Grown d [] [] d :=
  ⟨(List.append_nil _).symm, (List.append_nil _).symm, rfl, rfl, rfl, rfl⟩

theorem Draft.Grown.trans (h : Grown d is new d') (h' : Grown d' is' new' d'') :
    Grown d (is ++ is') (new ++ new') d'' where
  instructions := by rw [h'.instructions, h.instructions, List.append_assoc]
  symbols := by rw [h'.symbols, h.symbols, List.append_assoc]
  filename := h'.filename.trans h.filename
  children := h'.children.trans h.children
  jumps := h'.jumps.trans h.jumps
  function := h'.function.trans h.function

/-- Placing an operation whose immediate names a symbol. -/
theorem Draft.place_symbol (d : Draft) (i : Instruction) (symbol : String) (line : Nat) :
    ∃ new index, Grown d [{ i with imm := Int32.ofNat index }] new
        (d.place { instruction := i, reference := .symbol symbol } line)
      ∧ (d.unit.symbols ++ new)[index]? = some symbol ∧ new.length ≤ 1
      ∧ ∀ s ∈ new, s = symbol := by
  obtain ⟨new, index, heq, hget, hlen, hnew⟩ := d.unit.intern_eq symbol
  refine ⟨new, index, ?_, hget, hlen, hnew⟩
  constructor <;> simp only [place, emitSymbol, heq, emit, CodeUnit.push]

/-- Operations are placed one after the other, whatever their lines are. -/
def Draft.Placed : List Operation → Draft → Draft → Prop
  | [], d, d' => d' = d
  | op :: ops, d, d' => ∃ line, Draft.Placed ops (d.place op line) d'

theorem Draft.Placed.coded {d : Draft} (hs : Spelled calls ops) (hp : Draft.Placed ops d d') :
    ∃ is new, Grown d is new d' ∧ Coded (d.unit.symbols ++ new) calls is
      ∧ new.length ≤ 2 * calls.length
      ∧ ∀ s ∈ new, ∃ c ∈ calls, s = c.text ∨ s = c.function := by
  induction hs generalizing d with
  | nil =>
    obtain rfl : d' = d := hp
    exact ⟨[], [], .refl d', .nil, Nat.le_refl _, by simp⟩
  | @cons c calls ops r q hr hq _ ih =>
    obtain ⟨line₁, line₂, hp⟩ := hp
    obtain ⟨new₁, i, h₁, hi, hlen₁, hnew₁⟩ :=
      d.place_symbol { opcode := .loadStr, dest := r } c.text line₁
    obtain ⟨new₂, j, h₂, hj, hlen₂, hnew₂⟩ :=
      (d.place { instruction := { opcode := .loadStr, dest := r }
                 reference := .symbol c.text } line₁).place_symbol
        { opcode := .call, dest := q, src1 := r, mode := 1 } c.function line₂
    obtain ⟨is, new, h, hcoded, hlen, hnew⟩ := ih hp
    have hall := (h₁.trans h₂).trans h
    rw [h₂.symbols, h₁.symbols] at hcoded
    rw [h₁.symbols] at hj
    refine ⟨_, new₁ ++ (new₂ ++ new), List.append_assoc new₁ new₂ new ▸ hall, ?_, ?_, ?_⟩
    · rw [← List.append_assoc, ← List.append_assoc]
      have hj' := getElem?_append_of_eq_some hj new
      have hi' := getElem?_append_of_eq_some (getElem?_append_of_eq_some hi new₂) new
      exact .cons hr hq hi' hj' hcoded
    · simp only [List.length_append, List.length_cons]
      omega
    · intro s hs
      rw [List.mem_append, List.mem_append] at hs
      rcases hs with hs | hs | hs
      · exact ⟨c, List.mem_cons_self, Or.inl (hnew₁ s hs)⟩
      · exact ⟨c, List.mem_cons_self, Or.inr (hnew₂ s hs)⟩
      · obtain ⟨c', hc', hs⟩ := hnew s hs
        exact ⟨c', List.mem_cons_of_mem _ hc', hs⟩

/-! ### From lines to a unit -/

theorem mapM_cons_eq_ok {α β ε : Type} {f : α → Except ε β} {x : α} {xs : List α} {ys : List β}
    (h : (x :: xs).mapM f = .ok ys) :
    ∃ y ys', f x = .ok y ∧ xs.mapM f = .ok ys' ∧ ys = y :: ys' := by
  rw [List.mapM_cons] at h
  cases hx : f x with
  | error e =>
    rw [hx] at h
    cases h
  | ok y =>
    cases hxs : xs.mapM f with
    | error e =>
      rw [hx, hxs] at h
      cases h
    | ok ys' =>
      rw [hx, hxs] at h
      cases h
      exact ⟨y, ys', rfl, rfl, rfl⟩

/-- Lines with operations and nothing else place them in the unit of the top level. -/
theorem foldlM_line (filename : String) {lines : List (List Char)} {statements : List Statement}
    (hl : lines.mapM Statement.ofLine = .ok statements) (ho : operationsOf? statements = some ops)
    (d : Draft) (n : Nat) :
    ∃ d', Draft.Placed ops d d'
      ∧ (lines.zipIdx n).foldlM (Progress.line filename) { top := d } = .ok { top := d' } := by
  induction lines generalizing statements ops d n with
  | nil =>
    cases hl
    cases ho
    exact ⟨d, rfl, rfl⟩
  | cons line lines ih =>
    obtain ⟨s, rest, hs, hrest, rfl⟩ := mapM_cons_eq_ok hl
    cases s with
    | blank =>
      obtain ⟨d', hplaced, hfold⟩ := ih hrest ho d (n + 1)
      refine ⟨d', hplaced, ?_⟩
      rw [List.zipIdx_cons, List.foldlM_cons, Progress.line, hs]
      exact hfold
    | operation op =>
      obtain ⟨ops', ho', rfl⟩ := Option.map_eq_some_iff.1 ho
      obtain ⟨d', hplaced, hfold⟩ := ih hrest ho' (d.place op n) (n + 1)
      refine ⟨d', ⟨n, hplaced⟩, ?_⟩
      rw [List.zipIdx_cons, List.foldlM_cons, Progress.line, hs]
      exact hfold
    | functionStart | functionEnd | label => cases ho

/-- What a source that consists of calls is assembled into. -/
theorem assemble_calls {source : String} (h : MakesCalls source calls) (filename : String) :
    ∃ u is, assemble source filename = .ok [u] ∧ u.filename = some filename ∧ u.children = []
      ∧ u.instructions = is ++ [{ opcode := .halt }] ∧ Coded u.symbols calls is
      ∧ u.symbols.length ≤ 2 * calls.length
      ∧ ∀ s ∈ u.symbols, ∃ c ∈ calls, s = c.text ∨ s = c.function := by
  obtain ⟨statements, ops, hlines, hops, hspelled⟩ := h
  obtain ⟨d, hplaced, hfold⟩ := foldlM_line filename hlines hops
    (Draft.start filename none) 1
  obtain ⟨is, symbols, hgrown, hcoded, hlen, hsymbols⟩ := hplaced.coded hspelled
  have hinstructions : d.unit.instructions = is := hgrown.instructions
  have hunit : d.unit.symbols = symbols := hgrown.symbols
  have hclosing : d.closing d.unit = [{ opcode := .halt }] := by
    have hfunction : d.function = none := hgrown.function
    rw [Draft.closing, hfunction, hinstructions]
    exact if_neg hcoded.getLast?
  have hfinish : d.finish = .ok (d.unit.push { opcode := .halt } (UInt32.ofNat d.lastLine)) := by
    have hjumps : d.jumps = [] := hgrown.jumps
    rw [Draft.finish, hjumps]
    show Except.ok _ = _
    rw [hclosing]
    rfl
  refine ⟨{ d.unit.push { opcode := .halt } (UInt32.ofNat d.lastLine) with children := [] }, is, ?_,
    hgrown.filename, rfl, ?_, ?_, ?_, ?_⟩
  · have hstart : Progress.start filename = { top := Draft.start filename none } := rfl
    rw [assemble]
    dsimp only
    rw [hstart, hfold]
    show Progress.finish { top := d } (Text.lines source.toList).length = _
    rw [Progress.finish]
    dsimp only
    rw [hfinish]
    rfl
  · show d.unit.instructions ++ _ = _
    rw [hinstructions]
  · show Coded d.unit.symbols calls is
    rw [hunit]
    exact hcoded
  · show d.unit.symbols.length ≤ _
    rw [hunit]
    exact hlen
  · show ∀ s ∈ d.unit.symbols, _
    rw [hunit]
    exact hsymbols

end ModuleHost.Assembly
