import ModuleHost.Proofs.Assembly.Items

/-!
# Sources and their units

The statements of a source make an outline: the items of the top level and those of each function,
with a definition at the top level where a function starts.  A source is assembled when every line
is a statement, every statement is accepted where it stands, and no function is left without its end
(`WellFormed`).  Its units are then the code of the outline: the top level first, with the functions
behind it as its children (`assemble_wellFormed`, `outline_of_assemble`).
-/

namespace ModuleHost

namespace Assembly

structure Block where
  name : String
  items : List (Item × Nat) := []
deriving DecidableEq, Repr

/-- The operation by which the top level binds a name to a child. -/
def bindingOf (child : Nat) (name : String) : Operation :=
  { instruction := { opcode := .define, mode := UInt8.ofNat child }, reference := .symbol name }

/-- What statements have said so far. -/
structure Outline where
  top : List (Item × Nat) := []
  /-- The functions that have ended. -/
  functions : List Block := []
  /-- The function whose end has not come yet. -/
  current : Option Block := none
deriving DecidableEq, Repr

namespace Outline

/-- The items of the unit that statements go to. -/
def items (o : Outline) : List (Item × Nat) :=
  match o.current with
  | some b => b.items
  | none => o.top

def add (o : Outline) (item : Item) (line : Nat) : Outline :=
  match o.current with
  | some b => { o with current := some { b with items := b.items ++ [(item, line)] } }
  | none => { o with top := o.top ++ [(item, line)] }

def statement (o : Outline) (line : Nat) : Statement → Outline
  | .blank => o
  | .functionStart word? =>
    let name := String.ofList (word?.getD [])
    { o with
      top := o.top ++ [(.operation (bindingOf o.functions.length name), line)]
      current := some { name } }
  | .functionEnd => { o with functions := o.functions ++ o.current.toList, current := none }
  | .label name => o.add (.label name) line
  | .operation op => o.add (.operation op) line

def statements (o : Outline) (line : Nat) : List Statement → Outline
  | [] => o
  | s :: rest => (o.statement line s).statements (line + 1) rest

end Outline

def Outline.Accepts (o : Outline) : Statement → Prop
  | .blank => True
  | .functionStart word? =>
    o.current = none ∧ o.functions.length < 256 ∧ ∃ word, word? = some word ∧ isName word
  | .functionEnd => ∃ b, o.current = some b ∧ Closed b.items
  | .label name => (labelsIn o.items).lookup name = none
  | .operation _ => True

/-- The statement, which has this line, cannot stand behind those of the outline, and this is the
error that is found there.  Where a function ends, the error is that of a jump in it. -/
inductive Outline.Refuses (o : Outline) (line : Nat) : Statement → Error → Prop
  | nested (word? : Option (List Char)) (hcurrent : o.current ≠ none) :
      Refuses o line (.functionStart word?) ⟨line, .nestedFunction⟩
  | unnamed (hcurrent : o.current = none) :
      Refuses o line (.functionStart none) ⟨line, .missingOperand⟩
  | misnamed {word : List Char} (hcurrent : o.current = none) (hname : ¬ isName word) :
      Refuses o line (.functionStart (some word)) ⟨line, .invalidName (String.ofList word)⟩
  | tooMany {word : List Char} (hcurrent : o.current = none) (hname : isName word)
      (hmany : 256 ≤ o.functions.length) :
      Refuses o line (.functionStart (some word)) ⟨line, .tooManyFunctions⟩
  | unstarted (hcurrent : o.current = none) :
      Refuses o line .functionEnd ⟨line, .endWithoutFunction⟩
  | astray {b : Block} {jump : Nat} {name : String} (hcurrent : o.current = some b)
      (hjump : Astray (labelsIn b.items) (operationsIn b.items) jump name) :
      Refuses o line .functionEnd ⟨jump, .undefinedLabel name⟩
  | duplicate {name : String} (hlabel : (labelsIn o.items).lookup name ≠ none) :
      Refuses o line (.label name) ⟨line, .duplicateLabel name⟩

theorem Outline.Refuses.not_accepts {o : Outline} {line : Nat} {s : Statement} {e : Error}
    (h : o.Refuses line s e) : ¬ o.Accepts s := by
  intro ha
  cases h with
  | nested word? hcurrent => exact hcurrent ha.1
  | unnamed =>
    obtain ⟨-, -, word, heq, -⟩ := ha
    cases heq
  | misnamed _ hname =>
    obtain ⟨-, -, word, heq, hword⟩ := ha
    cases heq
    exact hname hword
  | tooMany _ _ hmany => exact Nat.not_le_of_lt ha.2.1 hmany
  | unstarted hcurrent =>
    obtain ⟨b, hb, -⟩ := ha
    rw [hcurrent] at hb
    cases hb
  | astray hcurrent hjump =>
    obtain ⟨b, hb, hclosed⟩ := ha
    rw [hcurrent] at hb
    cases hb
    exact hjump.not_closed hclosed
  | duplicate hlabel => exact hlabel ha

def Outline.AcceptsAll (o : Outline) (line : Nat) : List Statement → Prop
  | [] => True
  | s :: rest => o.Accepts s ∧ (o.statement line s).AcceptsAll (line + 1) rest

theorem Outline.statements_append (o : Outline) (line : Nat) (ss ss' : List Statement) :
    o.statements line (ss ++ ss') = (o.statements line ss).statements (line + ss.length) ss' := by
  induction ss generalizing o line with
  | nil => rfl
  | cons s ss ih =>
    refine (ih (o.statement line s) (line + 1)).trans ?_
    rw [List.length_cons, Nat.add_right_comm, Nat.add_assoc]
    rfl

theorem Outline.acceptsAll_append (o : Outline) (line : Nat) (ss ss' : List Statement) :
    o.AcceptsAll line (ss ++ ss')
      ↔ o.AcceptsAll line ss ∧ (o.statements line ss).AcceptsAll (line + ss.length) ss' := by
  induction ss generalizing o line with
  | nil => exact (and_iff_right trivial).symm
  | cons s ss ih =>
    refine (and_congr_right fun _ => ih (o.statement line s) (line + 1)).trans ?_
    rw [List.length_cons, Nat.add_right_comm, Nat.add_assoc]
    exact and_assoc.symm

def Block.Codes (filename : String) (b : Block) (u : CodeUnit) : Prop :=
  u.Holds filename (some b.name) b.items ∧ u.children = []

/-- The units are the code of the outline: the top level with the functions as its children. -/
def Outline.Codes (o : Outline) (filename : String) (us : List CodeUnit) : Prop :=
  ∃ top functions, us = top :: functions ∧ top.Holds filename none o.top
    ∧ top.children = (List.range o.functions.length).map (fun k => UInt32.ofNat (k + 1))
    ∧ List.Forall₂ (Block.Codes filename) o.functions functions

/-! ### Statement by statement -/

/-- The drafts and the units have been given what the outline says. -/
structure Progress.Holds (p : Progress) (filename : String) (o : Outline) : Prop where
  top : p.top.Holds filename none o.top
  functions : List.Forall₂ (Block.Codes filename) o.functions p.functions
  current : Option.Rel (fun b d => d.Holds filename (some b.name) b.items) o.current p.current

variable {p p' : Progress} {o : Outline} {filename : String} {us : List CodeUnit}

theorem Progress.holds_start (filename : String) : (Progress.start filename).Holds filename {} where
  top := Draft.holds_start filename none
  functions := .nil
  current := .none

/-- A change that gives one more item to a draft gives it to the outline. -/
theorem Progress.Holds.onDraft (h : p.Holds filename o) {change : Draft → Except Error Draft}
    {item : Item} {line : Nat}
    (hchange : ∀ d function, d.Holds filename function o.items →
      ∃ d', change d = .ok d' ∧ d'.Holds filename function (o.items ++ [(item, line)])) :
    ∃ p', p.onDraft change = .ok p' ∧ p'.Holds filename (o.add item line) := by
  obtain ⟨top, functions, current⟩ := p
  obtain ⟨otop, ofunctions, ocurrent⟩ := o
  obtain ⟨htop, hfunctions, hcurrent⟩ := h
  cases hcurrent with
  | none =>
    obtain ⟨d', heq, hd'⟩ := hchange top none htop
    refine ⟨{ top := d', functions }, ?_, hd', hfunctions, .none⟩
    rw [Progress.onDraft]
    dsimp only
    rw [heq]
    rfl
  | some hd =>
    obtain ⟨d', heq, hd'⟩ := hchange _ _ hd
    refine ⟨{ top, functions, current := some d' }, ?_, htop, hfunctions, .some hd'⟩
    rw [Progress.onDraft]
    dsimp only
    rw [heq]
    rfl

/-- A change that fails on the draft that statements go to fails. -/
theorem Progress.Holds.onDraft_error (h : p.Holds filename o) {change : Draft → Except Error Draft}
    {e : Error} (hchange : ∀ d function, d.Holds filename function o.items → change d = .error e) :
    p.onDraft change = .error e := by
  obtain ⟨top, functions, current⟩ := p
  obtain ⟨otop, ofunctions, ocurrent⟩ := o
  obtain ⟨htop, _, hcurrent⟩ := h
  cases hcurrent with
  | none =>
    rw [Progress.onDraft]
    dsimp only
    rw [hchange top none htop]
    rfl
  | some hd =>
    rw [Progress.onDraft]
    dsimp only
    rw [hchange _ _ hd]
    rfl

theorem name_eq_ok {word : List Char} (h : isName word) : name word = .ok (String.ofList word) :=
  if_pos h

theorem name_eq_error {word : List Char} (h : ¬ isName word) :
    name word = .error (.invalidName (String.ofList word)) := if_neg h

/-- Where a function can start, the definition goes to the top level and the function is open. -/
theorem Progress.Holds.startFunction (h : p.Holds filename o) {word : List Char}
    (hcurrent : o.current = none) (hfew : o.functions.length < 256) (hname : isName word)
    (line : Nat) :
    ∃ p', p.startFunction filename (some word) line = .ok p'
      ∧ p'.Holds filename (o.statement line (.functionStart (some word))) := by
  obtain ⟨top, functions, current⟩ := p
  obtain ⟨otop, ofunctions, ocurrent⟩ := o
  obtain ⟨htop, hfunctions, hc⟩ := h
  obtain rfl : ocurrent = none := hcurrent
  cases hc
  have hlength : functions.length = ofunctions.length := hfunctions.length_eq.symm
  refine ⟨{
    top := top.place (bindingOf ofunctions.length (String.ofList word)) line
    functions
    current := some (Draft.start filename (some (String.ofList word))) }, ?_,
    htop.place (bindingOf ofunctions.length (String.ofList word)) line, hfunctions,
    .some (Draft.holds_start _ _)⟩
  rw [Progress.startFunction]
  simp only [name_eq_ok hname, hlength, Nat.not_le.2 hfew]
  rfl

/-- Where a function has started and its jumps lead somewhere, it can end. -/
theorem Progress.Holds.endFunction (h : p.Holds filename o) {b : Block}
    (hcurrent : o.current = some b) (hclosed : Closed b.items) (line : Nat) :
    ∃ p', p.endFunction line = .ok p'
      ∧ p'.Holds filename (o.statement line .functionEnd) := by
  obtain ⟨top, functions, current⟩ := p
  obtain ⟨otop, ofunctions, ocurrent⟩ := o
  obtain ⟨htop, hfunctions, hc⟩ := h
  obtain rfl : ocurrent = some b := hcurrent
  cases hc with
  | some hd =>
    rcases hd.finish with ⟨u, hfinish, hu, hchildren⟩ | ⟨line, name, hastray, -⟩
    · refine ⟨{ top, functions := functions ++ [u] }, ?_, htop,
        List.rel_append hfunctions (.cons ⟨hu, hchildren⟩ .nil), .none⟩
      rw [Progress.endFunction]
      dsimp only
      rw [hfinish]
      rfl
    · exact absurd hclosed hastray.not_closed

theorem Progress.Holds.startFunction_error (h : p.Holds filename o) {word? : Option (List Char)}
    (ha : ¬ o.Accepts (.functionStart word?)) (line : Nat) :
    ∃ e, o.Refuses line (.functionStart word?) e
      ∧ p.startFunction filename word? line = .error e := by
  obtain ⟨top, functions, current⟩ := p
  obtain ⟨otop, ofunctions, ocurrent⟩ := o
  obtain ⟨_, hfunctions, hc⟩ := h
  have hlength : functions.length = ofunctions.length := hfunctions.length_eq.symm
  unfold Progress.startFunction
  cases hc with
  | some hd => exact ⟨_, .nested word? nofun, rfl⟩
  | none =>
    cases word? with
    | none => exact ⟨_, .unnamed rfl, rfl⟩
    | some word =>
      by_cases hname : isName word
      · have hmany : 256 ≤ ofunctions.length := by
          by_contra hfew
          exact ha ⟨rfl, Nat.lt_of_not_le hfew, word, rfl, hname⟩
        refine ⟨_, .tooMany rfl hname hmany, ?_⟩
        rw [← hlength] at hmany
        simp only [name_eq_ok hname, show functions.length ≥ 256 from hmany]
        rfl
      · refine ⟨_, .misnamed rfl hname, ?_⟩
        simp only [name_eq_error hname]
        rfl

theorem Progress.Holds.endFunction_error (h : p.Holds filename o)
    (ha : ¬ o.Accepts .functionEnd) (line : Nat) :
    ∃ e, o.Refuses line .functionEnd e ∧ p.endFunction line = .error e := by
  obtain ⟨top, functions, current⟩ := p
  obtain ⟨otop, ofunctions, ocurrent⟩ := o
  obtain ⟨_, _, hc⟩ := h
  unfold Progress.endFunction
  cases hc with
  | none => exact ⟨_, .unstarted rfl, rfl⟩
  | some hd =>
    rcases hd.finish with ⟨u, -, hu, -⟩ | ⟨jump, name, hastray, hfinish⟩
    · exact absurd ⟨_, rfl, hu.closed⟩ ha
    · refine ⟨_, .astray rfl hastray, ?_⟩
      dsimp only
      rw [hfinish]
      rfl

/-- A statement succeeds where it is accepted, and then says what it says to the outline.  Where it
is not, it is refused. -/
theorem Progress.Holds.statement (h : p.Holds filename o) (line : Nat) (s : Statement) :
    (o.Accepts s ∧ ∃ p', p.statement filename line s = .ok p'
        ∧ p'.Holds filename (o.statement line s))
      ∨ ∃ e, o.Refuses line s e ∧ p.statement filename line s = .error e := by
  by_cases ha : o.Accepts s
  · refine Or.inl ⟨ha, ?_⟩
    cases s with
    | blank => exact ⟨p, rfl, h⟩
    | functionStart word? =>
      obtain ⟨hcurrent, hfew, word, rfl, hname⟩ := ha
      exact h.startFunction hcurrent hfew hname line
    | functionEnd =>
      obtain ⟨b, hcurrent, hclosed⟩ := ha
      exact h.endFunction hcurrent hclosed line
    | label name =>
      refine h.onDraft fun d function hd => ?_
      rcases hd.defineLabel name line with ⟨-, hd'⟩ | ⟨hsome, -⟩
      · exact hd'
      · exact absurd ha hsome
    | operation op => exact h.onDraft fun d function hd => ⟨_, rfl, hd.place op line⟩
  · refine Or.inr ?_
    cases s with
    | blank | operation => exact absurd trivial ha
    | functionStart word? => exact h.startFunction_error ha line
    | functionEnd => exact h.endFunction_error ha line
    | label name =>
      refine ⟨_, .duplicate ha, h.onDraft_error fun d function hd => ?_⟩
      rcases hd.defineLabel name line with ⟨hnone, -⟩ | ⟨-, heq⟩
      · exact absurd hnone ha
      · exact heq

/-! ### From lines to units -/

theorem foldlM_line_cons {line : List Char} {s : Statement} (hs : Statement.ofLine line = .ok s)
    (lines : List (List Char)) (n : Nat) (p : Progress) :
    ((line :: lines).zipIdx n).foldlM (Progress.line filename) p
      = (p.statement filename n s >>= fun p' =>
        (lines.zipIdx (n + 1)).foldlM (Progress.line filename) p') := by
  rw [List.zipIdx_cons, List.foldlM_cons, Progress.line, hs]
  rfl

/-- Lines that are assembled are statements that are accepted one after the other. -/
theorem foldlM_eq_ok {lines : List (List Char)} {n : Nat} (h : p.Holds filename o)
    (hok : (lines.zipIdx n).foldlM (Progress.line filename) p = .ok p') :
    ∃ ss, lines.mapM Statement.ofLine = .ok ss ∧ o.AcceptsAll n ss
      ∧ p'.Holds filename (o.statements n ss) := by
  induction lines generalizing p o n with
  | nil =>
    cases hok
    exact ⟨[], rfl, trivial, h⟩
  | cons line lines ih =>
    cases hs : Statement.ofLine line with
    | error fault =>
      rw [List.zipIdx_cons, List.foldlM_cons, Progress.line, hs] at hok
      cases hok
    | ok s =>
      rw [foldlM_line_cons hs] at hok
      rcases h.statement n s with ⟨ha, p₁, heq, h₁⟩ | ⟨e, -, heq⟩
      · rw [heq] at hok
        obtain ⟨ss, hmap, hall, h'⟩ := ih h₁ hok
        refine ⟨s :: ss, ?_, ⟨ha, hall⟩, h'⟩
        rw [List.mapM_cons, hs, hmap]
        rfl
      · rw [heq] at hok
        cases hok

/-- Statements that are accepted one after the other are assembled. -/
theorem foldlM_of_acceptsAll {lines : List (List Char)} {ss : List Statement} {n : Nat}
    (h : p.Holds filename o) (hmap : lines.mapM Statement.ofLine = .ok ss)
    (hall : o.AcceptsAll n ss) :
    ∃ p', (lines.zipIdx n).foldlM (Progress.line filename) p = .ok p'
      ∧ p'.Holds filename (o.statements n ss) := by
  induction lines generalizing p o n ss with
  | nil =>
    cases hmap
    exact ⟨p, rfl, h⟩
  | cons line lines ih =>
    obtain ⟨s, rest, hs, hrest, rfl⟩ := mapM_cons_eq_ok hmap
    obtain ⟨ha, hall⟩ := hall
    rcases h.statement n s with ⟨-, p₁, heq, h₁⟩ | ⟨e, hrefused, -⟩
    · obtain ⟨p', hfold, h'⟩ := ih h₁ hrest hall
      refine ⟨p', ?_, h'⟩
      rw [foldlM_line_cons hs, heq]
      exact hfold
    · exact absurd ha hrefused.not_accepts

/-- No function is left without its end, and the jumps of the top level lead somewhere. -/
structure Outline.Complete (o : Outline) : Prop where
  current : o.current = none
  closed : Closed o.top

/-- The source, which has so many lines, cannot end behind the statements of the outline, and this
is the error that is found there. -/
inductive Outline.Lacks (o : Outline) (lineCount : Nat) : Error → Prop
  | ending {b : Block} (hcurrent : o.current = some b) :
      Lacks o lineCount ⟨lineCount, .unterminatedFunction b.name⟩
  | label {jump : Nat} {name : String} (hcurrent : o.current = none)
      (hjump : Astray (labelsIn o.top) (operationsIn o.top) jump name) :
      Lacks o lineCount ⟨jump, .undefinedLabel name⟩

theorem Outline.Lacks.not_complete {o : Outline} {lineCount : Nat} {e : Error}
    (h : o.Lacks lineCount e) : ¬ o.Complete := by
  intro hcomplete
  cases h with
  | ending hcurrent =>
    rw [hcomplete.current] at hcurrent
    cases hcurrent
  | label _ hjump => exact hjump.not_closed hcomplete.closed

/-- The source ends where its outline is complete, and its units are then the code of it. -/
theorem Progress.Holds.finish (h : p.Holds filename o) (lineCount : Nat) :
    (o.Complete ∧ ∃ us, p.finish lineCount = .ok us ∧ o.Codes filename us)
      ∨ ∃ e, o.Lacks lineCount e ∧ p.finish lineCount = .error e := by
  obtain ⟨top, functions, current⟩ := p
  obtain ⟨otop, ofunctions, ocurrent⟩ := o
  obtain ⟨htop, hfunctions, hc⟩ := h
  have hlength : functions.length = ofunctions.length := hfunctions.length_eq.symm
  unfold Progress.finish
  cases hc with
  | @some b d hd =>
    refine Or.inr ⟨_, .ending rfl, ?_⟩
    dsimp only
    rw [hd.function]
    rfl
  | none =>
    dsimp only at htop ⊢
    rcases htop.finish with ⟨u, hfinish, hu, -⟩ | ⟨jump, name, hastray, hfinish⟩
    · rw [hfinish, hlength]
      refine Or.inl ⟨⟨rfl, hu.closed⟩, _, rfl, { u with
        children := (List.range ofunctions.length).map (fun k => UInt32.ofNat (k + 1)) },
        functions, rfl, ⟨hu.filename, hu.instructions, hu.lines, hu.nodup, hu.few⟩, rfl, hfunctions⟩
    · rw [hfinish]
      exact Or.inr ⟨_, .label rfl hastray, rfl⟩

/-- The source consists of these statements, and they can stand where they do. -/
structure WellFormed (source : String) (ss : List Statement) : Prop where
  lines : (Text.lines source.toList).mapM Statement.ofLine = .ok ss
  accepted : Outline.AcceptsAll {} 1 ss
  complete : (Outline.statements {} 1 ss).Complete

/-- What a source is assembled into is the code of what its statements say. -/
theorem outline_of_assemble {source : String} (h : assemble source filename = .ok us) :
    ∃ ss, WellFormed source ss ∧ (Outline.statements {} 1 ss).Codes filename us := by
  rw [assemble] at h
  cases hfold : ((Text.lines source.toList).zipIdx 1).foldlM (Progress.line filename)
      (Progress.start filename) with
  | error e =>
    rw [hfold] at h
    cases h
  | ok p =>
    rw [hfold] at h
    have hfinish : p.finish (Text.lines source.toList).length = .ok us := h
    obtain ⟨ss, hmap, hall, hp⟩ := foldlM_eq_ok (Progress.holds_start filename) hfold
    rcases hp.finish (Text.lines source.toList).length with
      ⟨hcomplete, us', heq, hcodes⟩ | ⟨e, -, heq⟩
    · rw [heq] at hfinish
      cases hfinish
      exact ⟨ss, ⟨hmap, hall, hcomplete⟩, hcodes⟩
    · rw [heq] at hfinish
      cases hfinish

theorem assemble_wellFormed {source : String} {ss : List Statement} (h : WellFormed source ss)
    (filename : String) :
    ∃ us, assemble source filename = .ok us ∧ (Outline.statements {} 1 ss).Codes filename us := by
  obtain ⟨p, hfold, hp⟩ :=
    foldlM_of_acceptsAll (Progress.holds_start filename) h.lines h.accepted
  rcases hp.finish (Text.lines source.toList).length with ⟨-, us, heq, hcodes⟩ | ⟨e, hlacks, -⟩
  · refine ⟨us, ?_, hcodes⟩
    rw [assemble, hfold]
    exact heq
  · exact absurd h.complete hlacks.not_complete

end Assembly

end ModuleHost
