import ModuleHost.Assembly.Program
import Mathlib.Data.List.TakeWhile
import Mathlib.Logic.Relation

/-!
# Layout

Lines that hold nothing, comments, and the blanks around a line carry no meaning.  A source means
what its lines say one after the other (`said`), and this is what an edit of the layout keeps
(`said_of_relaid`).  Assembled without its line numbers, a source depends on nothing else
(`unlined_assemble`): so two sources of different layout come to the same units, apart from the line
numbers in them, or are refused for the same fault (`assemble_relaid`).
-/

namespace ModuleHost

namespace Text

variable {cs left right : List Char}

theorem trim_blanks (hleft : ∀ c ∈ left, isBlank c) (hright : ∀ c ∈ right, isBlank c) :
    trim (left ++ (cs ++ right)) = trim cs := by
  have hnone : right.dropWhile isBlank = [] := List.dropWhile_eq_nil_iff.2 hright
  have hend : ∀ ds, trimEnd (ds ++ right) = trimEnd ds := by
    intro ds
    have hreverse : ∀ c ∈ right.reverse, isBlank c := fun c hc => hright c (List.mem_reverse.1 hc)
    rw [trimEnd, List.reverse_append, List.dropWhile_append_of_pos hreverse, trimEnd]
  rw [trim, trimStart, List.dropWhile_append_of_pos hleft, List.dropWhile_append, hnone]
  split
  · next hempty =>
    rw [trim, trimStart, List.isEmpty_iff.1 hempty]
  · rw [hend]
    rfl

end Text

namespace Assembly

/-! ### Lines -/

variable {cs ds line : List Char} {q : Quoting}

theorem beforeComment_of_forall (h : ∀ c ∈ cs, startsComment c = false) :
    beforeComment q cs = cs := by
  induction cs generalizing q with
  | nil => rfl
  | cons c cs ih =>
    have hc : ¬ (q = .outside ∧ startsComment c = true) := by
      rw [h c List.mem_cons_self]
      exact fun hboth => nomatch hboth.2
    rw [beforeComment, if_neg hc, ih fun d hd => h d (List.mem_cons_of_mem c hd)]

/-- Behind a text without a comment the scan goes on. -/
theorem beforeComment_append (h : beforeComment q cs = cs) :
    beforeComment q (cs ++ ds) = cs ++ beforeComment (q.after cs) ds := by
  induction cs generalizing q with
  | nil => rfl
  | cons c cs ih =>
    rw [beforeComment] at h
    split at h
    · cases h
    · next hc =>
      rw [List.cons_append, beforeComment, if_neg hc, ih (List.cons.inj h).2]
      rfl

/-- Behind a comment there is nothing but the comment. -/
theorem beforeComment_append_of_ne (h : beforeComment q cs ≠ cs) :
    beforeComment q (cs ++ ds) = beforeComment q cs := by
  induction cs generalizing q with
  | nil => exact absurd rfl h
  | cons c cs ih =>
    rw [List.cons_append, beforeComment, beforeComment]
    rw [beforeComment] at h
    split
    · rfl
    · next hc =>
      rw [if_neg hc] at h
      rw [ih fun heq => h (congrArg (c :: ·) heq)]

theorem startsComment_of_isBlank {c : Char} (h : Text.isBlank c) : startsComment c = false := by
  by_contra hc
  rw [Bool.not_eq_false, startsComment, Bool.or_eq_true, decide_eq_true_eq, decide_eq_true_eq] at hc
  rcases hc with rfl | rfl
  · exact absurd h (by decide)
  · exact absurd h (by decide)

/-- Blanks in front of a line do not move the scan. -/
theorem after_of_isBlank (h : ∀ c ∈ cs, Text.isBlank c) : Quoting.outside.after cs = .outside := by
  induction cs with
  | nil => rfl
  | cons c cs ih =>
    have hc : c ≠ '"' := by
      rintro rfl
      exact absurd (h _ List.mem_cons_self) (by decide)
    have hnext : Quoting.outside.next c = .outside := if_neg hc
    rw [Quoting.after, List.foldl_cons, hnext]
    exact ih fun d hd => h d (List.mem_cons_of_mem c hd)

def HoldsNothing (line : List Char) : Prop :=
  ∃ blanks rest, line = blanks ++ rest ∧ (∀ c ∈ blanks, Text.isBlank c)
    ∧ ∀ c ∈ rest.head?, startsComment c

def EndsOutside (line : List Char) : Prop :=
  Quoting.outside.after (beforeComment .outside line) = .outside

instance (line : List Char) : Decidable (EndsOutside line) := inferInstanceAs (Decidable (_ = _))

theorem ofLine_of_holdsNothing (h : HoldsNothing line) : Statement.ofLine line = .ok .blank := by
  obtain ⟨blanks, rest, rfl, hblanks, hrest⟩ := h
  have hnone : beforeComment .outside rest = [] := by
    cases rest with
    | nil => rfl
    | cons c rest => exact if_pos ⟨rfl, hrest c rfl⟩
  have hkept : beforeComment .outside blanks = blanks :=
    beforeComment_of_forall fun c hc => startsComment_of_isBlank (hblanks c hc)
  have htrim : Text.trim (blanks ++ ([] ++ [])) = Text.trim [] := Text.trim_blanks hblanks nofun
  rw [Statement.ofLine, beforeComment_append hkept, after_of_isBlank hblanks, hnone]
  exact congrArg Statement.ofTrimmed htrim

/-- A comment behind a line that does not end inside a string literal changes nothing. -/
theorem ofLine_comment (h : EndsOutside line) {sign : Char} (hsign : startsComment sign)
    (text : List Char) : Statement.ofLine (line ++ sign :: text) = Statement.ofLine line := by
  have hsame : beforeComment .outside (line ++ sign :: text) = beforeComment .outside line := by
    by_cases hline : beforeComment .outside line = line
    · rw [EndsOutside, hline] at h
      rw [beforeComment_append hline, h, beforeComment, if_pos ⟨rfl, hsign⟩, hline, List.append_nil]
    · exact beforeComment_append_of_ne hline
  rw [Statement.ofLine, hsame, Statement.ofLine]

/-- Nor do blanks around it. -/
theorem ofLine_blanks {left right : List Char} (hleft : ∀ c ∈ left, Text.isBlank c)
    (hright : ∀ c ∈ right, Text.isBlank c) (line : List Char) :
    Statement.ofLine (left ++ (line ++ right)) = Statement.ofLine line := by
  have hkept : beforeComment .outside left = left :=
    beforeComment_of_forall fun c hc => startsComment_of_isBlank (hleft c hc)
  rw [Statement.ofLine, beforeComment_append hkept, after_of_isBlank hleft, Statement.ofLine]
  by_cases hline : beforeComment .outside line = line
  · rw [beforeComment_append hline,
      beforeComment_of_forall fun c hc => startsComment_of_isBlank (hright c hc), hline,
      Text.trim_blanks hleft hright]
  · have htrim : Text.trim (left ++ (beforeComment .outside line ++ []))
        = Text.trim (beforeComment .outside line) := Text.trim_blanks hleft nofun
    rw [List.append_nil] at htrim
    rw [beforeComment_append_of_ne hline, htrim]

/-! ### Sources -/

/-- One edit of the layout of a source, which is given by its lines. -/
inductive Relaid : List (List Char) → List (List Char) → Prop
  /-- A line that holds nothing is put in. -/
  | line (before after : List (List Char)) {line : List Char} (h : HoldsNothing line) :
      Relaid (before ++ after) (before ++ line :: after)
  /-- A comment is put behind a line. -/
  | comment (before after : List (List Char)) {line : List Char} (h : EndsOutside line)
      {sign : Char} (hsign : startsComment sign) (text : List Char) :
      Relaid (before ++ line :: after) (before ++ (line ++ sign :: text) :: after)
  /-- The blanks around a line are changed. -/
  | blanks (before after : List (List Char)) (line : List Char)
      {left right left' right' : List Char}
      (hleft : ∀ c ∈ left, Text.isBlank c) (hright : ∀ c ∈ right, Text.isBlank c)
      (hleft' : ∀ c ∈ left', Text.isBlank c) (hright' : ∀ c ∈ right', Text.isBlank c) :
      Relaid (before ++ (left ++ (line ++ right)) :: after)
        (before ++ (left' ++ (line ++ right')) :: after)

/-- What the lines say one after the other, without those that say nothing. -/
def said (lines : List (List Char)) : List (Except Fault Statement) :=
  (lines.map Statement.ofLine).filter (· ≠ .ok .blank)

theorem said_append (lines lines' : List (List Char)) :
    said (lines ++ lines') = said lines ++ said lines' := by
  rw [said, List.map_append, List.filter_append]
  rfl

theorem said_cons (line : List Char) (lines : List (List Char)) :
    said (line :: lines)
      = if Statement.ofLine line = .ok .blank then said lines
        else Statement.ofLine line :: said lines := by
  rw [said, List.map_cons, List.filter_cons]
  by_cases h : Statement.ofLine line = .ok .blank
  · rw [if_pos h, if_neg (by simp [h])]
    rfl
  · rw [if_neg h, if_pos (by simp [h])]
    rfl

theorem said_of_relaid {lines lines' : List (List Char)} (h : Relaid lines lines') :
    said lines' = said lines := by
  cases h with
  | line before after h =>
    rw [said_append, said_append, said_cons, if_pos (ofLine_of_holdsNothing h)]
  | comment before after h hsign text =>
    rw [said_append, said_append, said_cons, said_cons, ofLine_comment h hsign]
  | blanks before after line hleft hright hleft' hright' =>
    rw [said_append, said_append, said_cons, said_cons, ofLine_blanks hleft hright,
      ofLine_blanks hleft' hright']

end Assembly

/-! ### Units without line numbers -/

def CodeUnit.unlined (u : CodeUnit) : CodeUnit := { u with lines := u.lines.map fun _ => 0 }

namespace Assembly

def unlined {α β : Type} (f : α → β) : Except Error α → Except Error β
  | .ok a => .ok (f a)
  | .error e => .error { e with line := 0 }

/-- What loses its line numbers step by step loses them all. -/
theorem unlined_bind {α α' β β' : Type} {f : α → α'} {f' : β → β'} {x : Except Error α}
    {y : Except Error α'} {next : α → Except Error β} {next' : α' → Except Error β'}
    (hx : y = unlined f x) (h : ∀ a, next' (f a) = unlined f' (next a)) :
    (y >>= next') = unlined f' (x >>= next) := by
  subst hx
  cases x with
  | error e => rfl
  | ok a => exact h a

namespace Draft

def unlined (d : Draft) : Draft :=
  { d with
    unit := d.unit.unlined
    jumps := d.jumps.map fun jump => { jump with line := 0 }
    lastLine := 0 }

variable (d : Draft)

theorem unlined_emit (i : Instruction) (line : Nat) :
    d.unlined.emit i 0 = (d.emit i line).unlined := by
  simp [emit, unlined, CodeUnit.push, CodeUnit.unlined]

theorem unlined_emitSymbol (i : Instruction) (symbol : String) (line : Nat) :
    d.unlined.emitSymbol i symbol 0 = (d.emitSymbol i symbol line).unlined := by
  have hintern : d.unlined.unit.intern symbol
      = ((d.unit.intern symbol).1.unlined, (d.unit.intern symbol).2) := by
    unfold CodeUnit.intern
    rw [show d.unlined.unit.symbols = d.unit.symbols from rfl]
    cases d.unit.symbols.idxOf? symbol <;> rfl
  unfold emitSymbol
  rw [hintern]
  exact unlined_emit { d with unit := (d.unit.intern symbol).1 } _ line

theorem unlined_emitJump (i : Instruction) (label : String) (line : Nat) :
    d.unlined.emitJump i label 0 = (d.emitJump i label line).unlined := by
  simp [emitJump, emit, unlined, CodeUnit.push, CodeUnit.unlined]

theorem unlined_place (op : Operation) (line : Nat) :
    d.unlined.place op 0 = (d.place op line).unlined := by
  unfold place
  cases op.reference with
  | literal => exact unlined_emit d op.instruction line
  | symbol text => exact unlined_emitSymbol d op.instruction text line
  | label label => exact unlined_emitJump d op.instruction label line

theorem unlined_defineLabel (label : String) (line : Nat) :
    d.unlined.defineLabel label 0 = Assembly.unlined unlined (d.defineLabel label line) := by
  unfold defineLabel
  rw [show d.unlined.labels = d.labels from rfl]
  cases d.labels.lookup label <;> rfl

theorem unlined_resolve (labels : List (String × Nat)) (jumps : List OpenJump) (u : CodeUnit) :
    (jumps.map fun jump => { jump with line := 0 }).foldlM (resolve labels) u.unlined
      = Assembly.unlined CodeUnit.unlined (jumps.foldlM (resolve labels) u) := by
  induction jumps generalizing u with
  | nil => rfl
  | cons jump jumps ih =>
    rw [List.map_cons, List.foldlM_cons, List.foldlM_cons]
    refine unlined_bind ?_ ih
    unfold resolve
    cases labels.lookup jump.label <;> rfl

theorem unlined_foldl_push (is : List Instruction) (u : CodeUnit) (line : UInt32) :
    is.foldl (fun u i => u.push i 0) u.unlined
      = (is.foldl (fun u i => u.push i line) u).unlined := by
  induction is generalizing u with
  | nil => rfl
  | cons i is ih =>
    have hpush : u.unlined.push i 0 = (u.push i line).unlined := by
      simp [CodeUnit.push, CodeUnit.unlined]
    rw [List.foldl_cons, List.foldl_cons, hpush, ih]

theorem unlined_finish : d.unlined.finish = Assembly.unlined CodeUnit.unlined d.finish := by
  unfold finish
  refine unlined_bind (unlined_resolve d.labels d.jumps d.unit) fun u => ?_
  exact congrArg Except.ok (unlined_foldl_push (d.closing u) u (UInt32.ofNat d.lastLine))

end Draft

namespace Progress

def unlined (p : Progress) : Progress where
  top := p.top.unlined
  functions := p.functions.map CodeUnit.unlined
  current := p.current.map Draft.unlined

variable (p : Progress) (filename : String)

theorem unlined_onDraft {change change' : Draft → Except Error Draft}
    (h : ∀ d, change' d.unlined = Assembly.unlined Draft.unlined (change d)) :
    p.unlined.onDraft change' = Assembly.unlined unlined (p.onDraft change) := by
  obtain ⟨top, functions, current⟩ := p
  cases current with
  | none =>
    show (change' top.unlined).map _ = Assembly.unlined _ ((change top).map _)
    rw [h]
    cases change top <;> rfl
  | some d =>
    show (change' d.unlined).map _ = Assembly.unlined _ ((change d).map _)
    rw [h]
    cases change d <;> rfl

theorem unlined_startFunction (word? : Option (List Char)) (line : Nat) :
    p.unlined.startFunction filename word? 0
      = Assembly.unlined unlined (p.startFunction filename word? line) := by
  obtain ⟨top, functions, current⟩ := p
  cases current with
  | some d => rfl
  | none =>
    cases word? with
    | none => rfl
    | some word =>
      refine unlined_bind (f := id) ?_ fun function => ?_
      · cases name word <;> rfl
      · by_cases hmany : functions.length ≥ 256
        · simp [unlined, hmany, bind, Except.bind, throw, throwThe, MonadExceptOf.throw,
            Assembly.unlined]
        · simp [unlined, hmany, pure, Except.pure, Assembly.unlined,
            Draft.unlined_emitSymbol top _ _ line]
          rfl

theorem unlined_endFunction (line : Nat) :
    p.unlined.endFunction 0 = Assembly.unlined unlined (p.endFunction line) := by
  obtain ⟨top, functions, current⟩ := p
  cases current with
  | none => rfl
  | some d =>
    refine unlined_bind d.unlined_finish fun u => ?_
    exact congrArg Except.ok (by simp [unlined])

theorem unlined_statement (line : Nat) (s : Statement) :
    p.unlined.statement filename 0 s
      = Assembly.unlined unlined (p.statement filename line s) := by
  cases s with
  | blank => rfl
  | functionStart word? => exact p.unlined_startFunction filename word? line
  | functionEnd => exact p.unlined_endFunction line
  | label label => exact p.unlined_onDraft fun d => d.unlined_defineLabel label line
  | operation op => exact p.unlined_onDraft fun d => congrArg Except.ok (d.unlined_place op line)

theorem unlined_finish (lineCount : Nat) :
    p.unlined.finish 0 = Assembly.unlined (List.map CodeUnit.unlined) (p.finish lineCount) := by
  obtain ⟨top, functions, current⟩ := p
  cases current with
  | some d => rfl
  | none =>
    refine unlined_bind top.unlined_finish fun u => ?_
    exact congrArg Except.ok (by simp [unlined, CodeUnit.unlined])

/-- Assembles what one line says, which has no number. -/
def take (said : Except Fault Statement) : Except Error Progress := do
  let s ← said.mapError (Error.mk 0)
  p.statement filename 0 s

end Progress

/-- Without line numbers, only what the lines say counts. -/
theorem unlined_foldlM_line (filename : String) (lines : List (List Char)) (n : Nat)
    (p : Progress) :
    (said lines).foldlM (fun p => p.take filename) p.unlined
      = unlined Progress.unlined ((lines.zipIdx n).foldlM (Progress.line filename) p) := by
  induction lines generalizing n p with
  | nil => rfl
  | cons line lines ih =>
    rw [said_cons, List.zipIdx_cons, List.foldlM_cons, Progress.line]
    cases hs : Statement.ofLine line with
    | error fault => rfl
    | ok s =>
      by_cases hblank : s = .blank
      · subst hblank
        rw [if_pos rfl]
        exact ih (n + 1) p
      · rw [if_neg fun heq => hblank (Except.ok.inj heq), List.foldlM_cons]
        exact unlined_bind (p.unlined_statement filename n s) (ih (n + 1))

/-- Assembled without line numbers, a source depends on what its lines say and on nothing else. -/
theorem unlined_assemble (source filename : String) :
    unlined (List.map CodeUnit.unlined) (assemble source filename)
      = ((said (Text.lines source.toList)).foldlM (fun p => p.take filename)
          (Progress.start filename) >>= fun p => p.finish 0) := by
  refine (unlined_bind (f := Progress.unlined) ?_ fun p => ?_).symm
  · exact unlined_foldlM_line filename (Text.lines source.toList) 1 (Progress.start filename)
  · exact p.unlined_finish _

/-- Results that are the same but for their line numbers. -/
theorem cases_of_unlined_eq {α β : Type} {f : α → β} {x y : Except Error α}
    (h : unlined f x = unlined f y) :
    (∃ a b, x = .ok a ∧ y = .ok b ∧ f a = f b)
      ∨ ∃ e e', x = .error e ∧ y = .error e' ∧ e.fault = e'.fault := by
  cases x with
  | ok a =>
    cases y with
    | ok b => exact Or.inl ⟨a, b, rfl, rfl, Except.ok.inj h⟩
    | error e' => cases h
  | error e =>
    cases y with
    | ok b => cases h
    | error e' =>
      have herror : { e with line := 0 } = { e' with line := 0 } := Except.error.inj h
      exact Or.inr ⟨e, e', rfl, rfl, (Error.mk.inj herror).2⟩

/-- Two sources that differ in their layout only come to the same units apart from the line numbers,
or are refused for the same fault. -/
theorem assemble_relaid {source source' : String}
    (h : Relation.EqvGen Relaid (Text.lines source.toList) (Text.lines source'.toList))
    (filename : String) :
    (∃ us us', assemble source filename = .ok us ∧ assemble source' filename = .ok us'
        ∧ us.map CodeUnit.unlined = us'.map CodeUnit.unlined)
      ∨ ∃ e e', assemble source filename = .error e ∧ assemble source' filename = .error e'
        ∧ e.fault = e'.fault := by
  have hsaid : said (Text.lines source.toList) = said (Text.lines source'.toList) := by
    generalize Text.lines source.toList = ls, Text.lines source'.toList = ls' at h
    induction h with
    | rel _ _ hr => exact (said_of_relaid hr).symm
    | refl => rfl
    | symm _ _ _ ih => exact ih.symm
    | trans _ _ _ _ _ ih₁ ih₂ => exact ih₁.trans ih₂
  refine cases_of_unlined_eq ?_
  rw [unlined_assemble, hsaid, unlined_assemble]

/-- A comment full of quotes and commas, a line with nothing but a comment, and blanks around a
label. -/
theorem assemble_relaid_comments :
    let source := "str r1, \"a;b\"\nend:\n"
    let source' := "str r1, \"a;b\";\", end\\\n# .end\n\tend: \n"
    Relation.EqvGen Relaid (Text.lines source.toList) (Text.lines source'.toList)
      ∧ ∃ us us', assemble source "a.nl" = .ok us ∧ assemble source' "a.nl" = .ok us'
        ∧ us.map CodeUnit.unlined = us'.map CodeUnit.unlined := by
  intro source source'
  let load := "str r1, \"a;b\"".toList
  let label := "end:".toList
  let commented := load ++ ';' :: "\", end\\".toList
  let comment := "# .end".toList
  have hlines : Text.lines source.toList = [load, label] := by decide
  have hlines' : Text.lines source'.toList
      = [commented, comment, ['\t'] ++ (label ++ [' '])] := by decide
  have hnone : ∀ c ∈ ([] : List Char), Text.isBlank c := nofun
  have htab : ∀ c ∈ ['\t'], Text.isBlank c := List.forall_mem_singleton.2 rfl
  have hspace : ∀ c ∈ [' '], Text.isBlank c := List.forall_mem_singleton.2 rfl
  have hsign : ∀ c ∈ comment.head?, startsComment c := by
    rintro c ⟨rfl⟩
    rfl
  have hcomment : Relaid [load, label] [commented, label] :=
    .comment [] [label] (by decide) (by decide) _
  have hline : Relaid [commented, label] [commented, comment, label] :=
    .line [commented] [label] ⟨[], comment, rfl, nofun, hsign⟩
  have hblanks : Relaid [commented, comment, label]
      [commented, comment, ['\t'] ++ (label ++ [' '])] :=
    .blanks [commented, comment] [] label hnone hnone htab hspace
  have hrelaid : Relation.EqvGen Relaid (Text.lines source.toList) (Text.lines source'.toList) := by
    rw [hlines, hlines']
    exact .trans _ _ _ (.rel _ _ hcomment) (.trans _ _ _ (.rel _ _ hline) (.rel _ _ hblanks))
  refine ⟨hrelaid, ?_⟩
  rcases assemble_relaid hrelaid "a.nl" with hok | ⟨e, -, he, -⟩
  · exact hok
  · have hsome : (assemble source "a.nl").isOk = true := by decide +kernel
    rw [he] at hsome
    cases hsome

end Assembly

end ModuleHost
