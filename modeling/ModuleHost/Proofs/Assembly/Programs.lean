import ModuleHost.Proofs.Assembly.Spelling

/-!
# Programs

A program is a sequence of lines and functions, each function a sequence of lines of its own; a line
is a label or an instruction.  Every program whose labels are what its jumps need can be written
down, one line after the other, and is assembled into what was meant: the unit of the top level,
with a definition where each function stands, and behind it the units of the functions
(`assemble_program`).
-/

namespace ModuleHost

namespace Assembly

inductive Line where
  | label (name : Name)
  | code (code : Code)
deriving DecidableEq

namespace Line

def text : Line → List Char
  | label name => name.labelLine
  | code c => c.line

def item : Line → Item
  | label name => .label name.text
  | code c => .operation c.operation

def statement : Line → Statement
  | label name => .label name.text
  | code c => .operation c.operation

def label? : Line → Option String
  | label name => some name.text
  | code _ => none

def target? : Line → Option String
  | code (.jump name) | code (.jumpIf _ name) | code (.jumpUnless _ name) => some name.text
  | _ => none

theorem ofLine_text (l : Line) : Statement.ofLine l.text = .ok l.statement := by
  cases l with
  | label name => exact name.ofLine_labelLine
  | code c => exact c.ofLine_line

theorem oneLine (l : Line) : '\n' ∉ l.text := by
  cases l with
  | label name =>
    intro h
    rcases List.mem_append.1 h with h | h
    · exact name.operand.oneLine h
    · exact absurd h (by decide)
  | code c => exact c.oneLine

/-- A jump refers to its label. -/
theorem target?_of_reference {c : Code} {name : String} (h : c.operation.reference = .label name) :
    (code c).target? = some name := by
  cases c with
  | jump label | jumpIf _ label | jumpUnless _ label =>
    exact congrArg some (Reference.label.inj h)
  | _ => cases h

end Line

/-- The labels of a unit are distinct, and its jumps name labels of its own. -/
structure Labelled (ls : List Line) : Prop where
  nodup : (ls.filterMap Line.label?).Nodup
  targets : ∀ l ∈ ls, ∀ name ∈ l.target?, name ∈ ls.filterMap Line.label?

inductive Part where
  | line (l : Line)
  | function (name : Name) (body : List Line)
deriving DecidableEq

namespace Part

def text : Part → List (List Char)
  | line l => [l.text]
  | function name body => name.startLine :: (body.map Line.text ++ [endLine])

def statements : Part → List Statement
  | line l => [l.statement]
  | function name body =>
    .functionStart (some name.text.toList) :: (body.map Line.statement ++ [.functionEnd])

def line? : Part → Option Line
  | line l => some l
  | function .. => none

def body? : Part → Option (List Line)
  | line _ => none
  | function _ body => some body

theorem ofLine_text (p : Part) :
    List.Forall₂ (fun l s => Statement.ofLine l = .ok s) p.text p.statements := by
  cases p with
  | line l => exact .cons l.ofLine_text .nil
  | function name body =>
    refine .cons name.ofLine_startLine (List.rel_append ?_ (.cons ofLine_endLine .nil))
    rw [List.forall₂_map_left_iff, List.forall₂_map_right_iff, List.forall₂_same]
    exact fun l _ => l.ofLine_text

theorem oneLine (p : Part) : ∀ l ∈ p.text, '\n' ∉ l := by
  cases p with
  | line l =>
    intro cs hcs
    rw [List.mem_singleton.1 hcs]
    exact l.oneLine
  | function name body =>
    intro cs hcs
    rcases List.mem_cons.1 hcs with rfl | hcs
    · intro h
      rcases List.mem_append.1 h with h | h
      · exact absurd h (by decide)
      · rcases List.mem_append.1 h with h | h
        · exact absurd h (by decide)
        · exact name.operand.oneLine h
    rcases List.mem_append.1 hcs with hcs | hcs
    · obtain ⟨l, -, rfl⟩ := List.mem_map.1 hcs
      exact l.oneLine
    · rw [List.mem_singleton.1 hcs]
      decide

end Part

/-! ### The items of a program -/

/-- The items of the top level, from a line and a child number on: a definition stands where a
function is. -/
def topItems (line child : Nat) : List Part → List (Item × Nat)
  | [] => []
  | .line l :: parts => (l.item, line) :: topItems (line + 1) child parts
  | .function name body :: parts =>
    (.operation (bindingOf child name.text), line)
      :: topItems (line + body.length + 2) (child + 1) parts

def blocks (line : Nat) : List Part → List Block
  | [] => []
  | .line _ :: parts => blocks (line + 1) parts
  | .function name body :: parts =>
    { name := name.text, items := (body.map Line.item).zipIdx (line + 1) }
      :: blocks (line + body.length + 2) parts

/-- A program whose labels are what its jumps need. -/
structure Program where
  parts : List Part
  /-- A program has at most 256 functions. -/
  few : (parts.filterMap Part.body?).length ≤ 256
  top : Labelled (parts.filterMap Part.line?)
  functions : ∀ body ∈ parts.filterMap Part.body?, Labelled body

namespace Program

def lines (p : Program) : List (List Char) := p.parts.flatMap Part.text

def source (p : Program) : String := String.ofList (p.lines.flatMap (· ++ ['\n']))

def topItems (p : Program) : List (Item × Nat) := Assembly.topItems 1 0 p.parts

def blocks (p : Program) : List Block := Assembly.blocks 1 p.parts

end Program

/-! ### Reading it back -/

theorem lines_flatMap {ls : List (List Char)} (h : ∀ l ∈ ls, '\n' ∉ l) :
    Text.lines (ls.flatMap (· ++ ['\n'])) = ls := by
  induction ls with
  | nil => rfl
  | cons l ls ih =>
    rw [List.flatMap_cons, List.append_assoc, List.singleton_append,
      Text.lines_append (h l List.mem_cons_self), ih fun l' hl' => h l' (List.mem_cons_of_mem l hl')]

theorem mapM_eq_ok {α β ε : Type} {f : α → Except ε β} {xs : List α} {ys : List β}
    (h : List.Forall₂ (fun x y => f x = .ok y) xs ys) : xs.mapM f = .ok ys := by
  induction h with
  | nil => rfl
  | cons hx _ ih =>
    rw [List.mapM_cons, hx, ih]
    rfl

theorem forall₂_of_mapM {α β ε : Type} {f : α → Except ε β} {xs : List α} {ys : List β}
    (h : xs.mapM f = .ok ys) : List.Forall₂ (fun x y => f x = .ok y) xs ys := by
  induction xs generalizing ys with
  | nil =>
    cases h
    exact .nil
  | cons x xs ih =>
    obtain ⟨y, ys', hy, hys, rfl⟩ := mapM_cons_eq_ok h
    exact .cons hy (ih hys)

theorem Program.lines_source (p : Program) : Text.lines p.source.toList = p.lines := by
  rw [source, String.toList_ofList]
  refine lines_flatMap fun l hl => ?_
  obtain ⟨part, -, hpart⟩ := List.mem_flatMap.1 hl
  exact part.oneLine l hpart

theorem Program.mapM_lines (p : Program) :
    p.lines.mapM Statement.ofLine = .ok (p.parts.flatMap Part.statements) := by
  refine mapM_eq_ok ?_
  rw [lines]
  induction p.parts with
  | nil => exact .nil
  | cons part parts ih => exact List.rel_append part.ofLine_text ih

/-! ### What the statements say -/

variable {o : Outline} {line child : Nat} {items : List (Item × Nat)} {ls : List Line}
  {parts : List Part}

def Item.label? : Item → Option String
  | label name => some name
  | operation _ => none

def labelNames (items : List (Item × Nat)) : List String := items.filterMap fun item => item.1.label?

theorem labelNames_append (items items' : List (Item × Nat)) :
    labelNames (items ++ items') = labelNames items ++ labelNames items' := List.filterMap_append

theorem map_fst_labelsFrom (count : Nat) (items : List (Item × Nat)) :
    (labelsFrom count items).map Prod.fst = labelNames items := by
  induction items generalizing count with
  | nil => rfl
  | cons item items ih =>
    obtain ⟨item, line⟩ := item
    cases item with
    | label name => exact congrArg (name :: ·) (ih count)
    | operation op => exact ih (count + 1)

theorem lookup_labelsIn_eq_none_iff {name : String} :
    (labelsIn items).lookup name = none ↔ name ∉ labelNames items := by
  rw [List.lookup_eq_none_iff, ← map_fst_labelsFrom 0, List.mem_map]
  constructor
  · rintro h ⟨entry, hentry, rfl⟩
    exact absurd (h entry hentry) (by simp)
  · intro h entry hentry
    rw [bne_iff_ne]
    rintro rfl
    exact h ⟨entry, hentry, rfl⟩

theorem labelNames_line (l : Line) (line : Nat) :
    labelNames [(l.item, line)] = l.label?.toList := by
  cases l <;> rfl

theorem filterMap_label?_cons (l : Line) (ls : List Line) :
    (l :: ls).filterMap Line.label? = l.label?.toList ++ ls.filterMap Line.label? := by
  cases l <;> rfl

theorem labelNames_zipIdx (ls : List Line) (line : Nat) :
    labelNames ((ls.map Line.item).zipIdx line) = ls.filterMap Line.label? := by
  induction ls generalizing line with
  | nil => rfl
  | cons l ls ih =>
    rw [filterMap_label?_cons, ← ih (line + 1), ← labelNames_line l line, ← labelNames_append]
    rfl

/-- Items that are the lines of a well-labelled unit, and definitions, have the labels that their
jumps need. -/
theorem Labelled.closed (h : Labelled ls) (hnames : labelNames items = ls.filterMap Line.label?)
    (hitems : ∀ item ∈ items, (∃ l ∈ ls, item.1 = l.item)
      ∨ ∃ child name, item.1 = .operation (bindingOf child name)) : Closed items := by
  intro op hop name href
  rw [Ne, lookup_labelsIn_eq_none_iff, not_not, hnames]
  rcases hitems _ (mem_of_mem_operationsIn hop) with ⟨l, hl, heq⟩ | ⟨child, function, heq⟩
  · cases l with
    | label label => cases heq
    | code c =>
      rw [Item.operation.inj heq] at href
      exact h.targets _ hl name (Line.target?_of_reference href)
  · rw [Item.operation.inj heq] at href
    cases href

theorem Outline.items_add (o : Outline) (item : Item) (line : Nat) :
    (o.add item line).items = o.items ++ [(item, line)] := by
  obtain ⟨top, functions, current⟩ := o
  cases current <;> rfl

theorem Outline.statement_line (o : Outline) (line : Nat) (l : Line) :
    o.statement line l.statement = o.add l.item line := by
  cases l <;> rfl

/-- Lines are accepted where their labels are new. -/
theorem acceptsAll_lines (h : (labelNames o.items ++ ls.filterMap Line.label?).Nodup) :
    o.AcceptsAll line (ls.map Line.statement) := by
  induction ls generalizing o line with
  | nil => trivial
  | cons l ls ih =>
    have hnext : labelNames (o.statement line l.statement).items
        = labelNames o.items ++ l.label?.toList := by
      rw [Outline.statement_line, Outline.items_add, labelNames_append, labelNames_line]
    rw [filterMap_label?_cons, ← List.append_assoc, ← hnext] at h
    refine ⟨?_, ih h⟩
    cases l with
    | code c => trivial
    | label name =>
      rw [hnext, List.nodup_append, List.nodup_append] at h
      refine lookup_labelsIn_eq_none_iff.2 fun hmem => ?_
      exact h.1.2.2 _ hmem name.text (List.mem_singleton.2 rfl) rfl

theorem statements_lines {top : List (Item × Nat)} {functions : List Block} (b : Block)
    (ls : List Line) (line : Nat) :
    Outline.statements { top, functions, current := some b } line (ls.map Line.statement)
      = { top, functions, current := some { b with
          items := b.items ++ (ls.map Line.item).zipIdx line } } := by
  induction ls generalizing b line with
  | nil =>
    rw [List.map_nil, List.map_nil, List.zipIdx_nil, List.append_nil]
    rfl
  | cons l ls ih =>
    rw [List.map_cons, Outline.statements, Outline.statement_line]
    refine (ih { b with items := b.items ++ [(l.item, line)] } (line + 1)).trans ?_
    rw [List.append_assoc]
    rfl

theorem length_statements_function (name : Name) (body : List Line) :
    (Part.function name body).statements.length = body.length + 2 := by
  rw [Part.statements, List.length_cons, List.length_append, List.length_map]
  rfl

/-- A function adds a definition to the top level and itself to the functions. -/
theorem statements_function (hcurrent : o.current = none) (name : Name) (body : List Line)
    (line : Nat) :
    o.statements line (Part.function name body).statements = {
      top := o.top ++ [(.operation (bindingOf o.functions.length name.text), line)]
      functions := o.functions
        ++ [{ name := name.text, items := (body.map Line.item).zipIdx (line + 1) }] } := by
  obtain ⟨top, functions, current⟩ := o
  obtain rfl : current = none := hcurrent
  rw [Part.statements, Outline.statements, Outline.statements_append]
  dsimp only [Outline.statement, Option.getD_some]
  rw [String.ofList_toList, statements_lines]
  rfl

theorem acceptsAll_function (hcurrent : o.current = none) (hfew : o.functions.length < 256)
    (name : Name) {body : List Line} (h : Labelled body) (line : Nat) :
    o.AcceptsAll line (Part.function name body).statements := by
  obtain ⟨top, functions, current⟩ := o
  obtain rfl : current = none := hcurrent
  have hbody : Closed ((body.map Line.item).zipIdx (line + 1)) := by
    refine h.closed (labelNames_zipIdx body _) fun item hitem => Or.inl ?_
    obtain ⟨l, hl, heq⟩ := List.mem_map.1 (List.fst_mem_of_mem_zipIdx hitem)
    exact ⟨l, hl, heq.symm⟩
  refine ⟨⟨rfl, hfew, _, rfl, name.valid⟩, (Outline.acceptsAll_append _ _ _ _).2 ⟨?_, ?_, trivial⟩⟩
  · exact acceptsAll_lines h.nodup
  · refine ⟨_, congrArg Outline.current (statements_lines _ body _), hbody⟩

/-- The statements of a program say what its items are. -/
theorem statements_parts (hcurrent : o.current = none) (parts : List Part) (line : Nat) :
    o.statements line (parts.flatMap Part.statements) = {
      top := o.top ++ topItems line o.functions.length parts
      functions := o.functions ++ blocks line parts } := by
  induction parts generalizing o line with
  | nil =>
    rw [topItems, blocks, List.append_nil, List.append_nil, ← hcurrent]
    rfl
  | cons part parts ih =>
    rw [List.flatMap_cons, Outline.statements_append]
    cases part with
    | line l =>
      obtain ⟨top, functions, current⟩ := o
      obtain rfl : current = none := hcurrent
      have hline : Outline.statements { top, functions } line (Part.line l).statements
          = { top := top ++ [(l.item, line)], functions } :=
        Outline.statement_line { top, functions } line l
      rw [hline, ih rfl]
      simp only [List.append_assoc, topItems, blocks]
      rfl
    | function name body =>
      rw [statements_function hcurrent, ih rfl, length_statements_function, ← Nat.add_assoc]
      simp only [List.append_assoc, List.length_append, List.length_singleton, topItems, blocks]
      rfl

theorem acceptsAll_parts (hcurrent : o.current = none)
    (hfew : o.functions.length + (parts.filterMap Part.body?).length ≤ 256)
    (hlabels : (labelNames o.top
      ++ (parts.filterMap Part.line?).filterMap Line.label?).Nodup)
    (hfunctions : ∀ body ∈ parts.filterMap Part.body?, Labelled body) (line : Nat) :
    o.AcceptsAll line (parts.flatMap Part.statements) := by
  induction parts generalizing o line with
  | nil => trivial
  | cons part parts ih =>
    rw [List.flatMap_cons, Outline.acceptsAll_append]
    cases part with
    | line l =>
      obtain ⟨top, functions, current⟩ := o
      obtain rfl : current = none := hcurrent
      have hline : Outline.statements { top, functions } line (Part.line l).statements
          = { top := top ++ [(l.item, line)], functions } :=
        Outline.statement_line { top, functions } line l
      have hlabels' : (labelNames top ++ (l :: parts.filterMap Part.line?).filterMap
        Line.label?).Nodup := hlabels
      rw [filterMap_label?_cons, ← List.append_assoc] at hlabels'
      have hone : Outline.AcceptsAll { top, functions } line ([l].map Line.statement) := by
        refine acceptsAll_lines ?_
        rw [filterMap_label?_cons, List.filterMap_nil, List.append_nil]
        exact (List.nodup_append.1 hlabels').1
      refine ⟨hone, ?_⟩
      rw [hline]
      refine ih (o := { top := top ++ [(l.item, line)], functions }) rfl hfew ?_ hfunctions _
      rw [labelNames_append, labelNames_line]
      exact hlabels'
    | function name body =>
      have hfew' : o.functions.length + (parts.filterMap Part.body?).length + 1 ≤ 256 := hfew
      constructor
      · refine acceptsAll_function hcurrent ?_ name ?_ line
        · omega
        · exact hfunctions body List.mem_cons_self
      · rw [statements_function hcurrent]
        refine ih rfl ?_ ?_ (fun b hb => hfunctions b (List.mem_cons_of_mem body hb)) _
        · rw [List.length_append, List.length_singleton]
          omega
        · rw [labelNames_append]
          show (labelNames o.top ++ [] ++ _).Nodup
          rw [List.append_nil]
          exact hlabels

/-! ### The assembled program -/

theorem mem_topItems {item : Item × Nat} (h : item ∈ topItems line child parts) :
    (∃ l ∈ parts.filterMap Part.line?, item.1 = l.item)
      ∨ ∃ child name, item.1 = .operation (bindingOf child name) := by
  induction parts generalizing line child with
  | nil => cases h
  | cons part parts ih =>
    cases part with
    | line l =>
      rcases List.mem_cons.1 h with rfl | h
      · exact Or.inl ⟨l, List.mem_cons_self, rfl⟩
      · rcases ih h with ⟨l', hl', heq⟩ | hdefinition
        · exact Or.inl ⟨l', List.mem_cons_of_mem l hl', heq⟩
        · exact Or.inr hdefinition
    | function name body =>
      rcases List.mem_cons.1 h with rfl | h
      · exact Or.inr ⟨child, name.text, rfl⟩
      · exact ih h

theorem labelNames_topItems (line child : Nat) (parts : List Part) :
    labelNames (topItems line child parts)
      = (parts.filterMap Part.line?).filterMap Line.label? := by
  induction parts generalizing line child with
  | nil => rfl
  | cons part parts ih =>
    cases part with
    | line l =>
      show labelNames ([(l.item, line)] ++ topItems (line + 1) child parts)
        = (l :: parts.filterMap Part.line?).filterMap Line.label?
      rw [labelNames_append, labelNames_line, filterMap_label?_cons, ih]
    | function name body => exact ih _ _

theorem Program.wellFormed (p : Program) :
    WellFormed p.source (p.parts.flatMap Part.statements) where
  lines := by
    rw [p.lines_source]
    exact p.mapM_lines
  accepted := by
    refine acceptsAll_parts (o := {}) rfl ?_ p.top.nodup p.functions 1
    rw [List.length_nil, Nat.zero_add]
    exact p.few
  complete := by
    rw [statements_parts rfl]
    exact ⟨rfl, p.top.closed (labelNames_topItems _ _ _) fun item hitem => mem_topItems hitem⟩

/-- There are at most as many items as lines, and their numbers are among those of the lines. -/
def Within (first count : Nat) (items : List (Item × Nat)) : Prop :=
  items.length ≤ count ∧ ∀ item ∈ items, item.2 < first + count

theorem Within.behind {first k count : Nat} (h : Within (first + k) count items) :
    Within first (k + count) items :=
  ⟨Nat.le_add_left_of_le h.1, fun item hitem => Nat.add_assoc first k count ▸ h.2 item hitem⟩

theorem Within.cons {first k count : Nat} (h : Within (first + k) count items) (hk : 0 < k)
    (item : Item) : Within first (k + count) ((item, first) :: items) := by
  refine ⟨?_, fun item' hitem => ?_⟩
  · have hlength := h.1
    rw [List.length_cons]
    omega
  · rcases List.mem_cons.1 hitem with rfl | hitem
    · exact Nat.lt_add_of_pos_right (Nat.add_pos_left hk count)
    · exact h.behind.2 item' hitem

theorem length_text_function (name : Name) (body : List Line) :
    (Part.function name body).text.length = body.length + 2 := by
  rw [Part.text, List.length_cons, List.length_append, List.length_map]
  rfl

theorem within_topItems (line child : Nat) (parts : List Part) :
    Within line (parts.flatMap Part.text).length (topItems line child parts) := by
  induction parts generalizing line child with
  | nil => exact ⟨Nat.le_refl 0, nofun⟩
  | cons part parts ih =>
    rw [List.flatMap_cons, List.length_append]
    cases part with
    | line l => exact (ih (line + 1) child).cons Nat.one_pos l.item
    | function name body =>
      rw [length_text_function]
      exact (ih (line + (body.length + 2)) (child + 1)).cons (Nat.succ_pos _) _

theorem within_blocks (line : Nat) (parts : List Part) :
    ∀ b ∈ blocks line parts, Within line (parts.flatMap Part.text).length b.items := by
  induction parts generalizing line with
  | nil => exact nofun
  | cons part parts ih =>
    rw [List.flatMap_cons, List.length_append]
    cases part with
    | line l => exact fun b hb => (ih (line + 1) b hb).behind
    | function name body =>
      rw [length_text_function]
      intro b hb
      rcases List.mem_cons.1 hb with rfl | hb
      · refine ⟨?_, fun item hitem => ?_⟩
        · rw [List.length_zipIdx, List.length_map]
          omega
        · have hlt := List.snd_lt_add_of_mem_zipIdx hitem
          rw [List.length_map] at hlt
          omega
      · exact (ih (line + (body.length + 2)) b hb).behind

theorem Within.exact {count : Nat} (h : Within 1 count items) (hcount : count < 0x80000000)
    {u : CodeUnit} {filename : String} {function : Option String}
    (hu : u.Holds filename function items) : u.Exact items := by
  refine hu.exact ?_ fun item hitem => ?_
  · exact Nat.lt_of_le_of_lt (Nat.le_trans (length_operationsIn_le items) h.1) hcount
  · have hline := h.2 item hitem
    omega

/-- Every program is assembled into the unit of the top level and the units of its functions.  While
the source has fewer than 2³¹ lines, all immediates and lines are the numbers that they stand for;
beyond that they are these numbers as far as 32 bits hold them. -/
theorem assemble_program (p : Program) (filename : String) :
    ∃ top functions, assemble p.source filename = .ok (top :: functions)
      ∧ top.Holds filename none p.topItems
      ∧ top.children = (List.range p.blocks.length).map (fun k => UInt32.ofNat (k + 1))
      ∧ List.Forall₂ (Block.Codes filename) p.blocks functions
      ∧ (p.lines.length < 0x80000000 → top.Exact p.topItems
        ∧ List.Forall₂ (fun b u => u.Exact b.items) p.blocks functions) := by
  obtain ⟨us, heq, top, functions, rfl, htop, hchildren, hfunctions⟩ :=
    assemble_wellFormed p.wellFormed filename
  rw [statements_parts rfl] at htop hchildren hfunctions
  refine ⟨top, functions, heq, htop, hchildren, hfunctions, fun hfew => ⟨?_, ?_⟩⟩
  · exact (within_topItems 1 0 p.parts).exact hfew htop
  · have hboth := (List.forall₂_and_left _ _).2 ⟨within_blocks 1 p.parts, hfunctions⟩
    exact hboth.imp fun b u hb => hb.1.exact hfew hb.2.1

/-- A program that calls its only function again and again. -/
def greeter : Program where
  parts := [
    .line (.label ⟨"start", by decide⟩),
    .line (.code (.call ⟨1, by decide⟩ ⟨"greet", by decide⟩
      (.many ⟨2, by decide⟩ 1 (by decide)))),
    .line (.code (.jump ⟨"start", by decide⟩)),
    .function ⟨"greet", by decide⟩ [
      .code (.loadStr ⟨1, by decide⟩ "a;\"b"), .code (.ret (some ⟨1, by decide⟩))]]
  few := by decide
  top := ⟨by decide, by decide⟩
  functions := by
    intro body hbody
    obtain rfl := List.mem_singleton.1 hbody
    exact ⟨by decide, by decide⟩

theorem assemble_program_greeter :
    greeter.source = "start:\ncall r1, greet, r2, 1\njmp start\n.def greet\n"
        ++ "str r1, \"a;\\\"b\"\nret r1\n.end\n"
      ∧ ∃ top function, assemble greeter.source "greeter.nl" = .ok [top, function]
        ∧ top.Exact greeter.topItems ∧ top.children = [1] := by
  obtain ⟨top, functions, heq, -, hchildren, hfunctions, hexact⟩ :=
    assemble_program greeter "greeter.nl"
  obtain ⟨function, rfl⟩ : ∃ function, functions = [function] :=
    List.length_eq_one_iff.1 hfunctions.length_eq.symm
  exact ⟨by decide, top, function, heq, (hexact (by decide)).1, hchildren⟩

end Assembly

end ModuleHost
