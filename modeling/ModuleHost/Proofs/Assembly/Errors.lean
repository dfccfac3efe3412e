import ModuleHost.Proofs.Assembly.Located

/-!
# Errors of a source

A source is refused at the first line that is no statement or that cannot stand behind the lines
before it (`Refused`).  Only two things are found when all lines have been read: a function without
its end, and a jump of the top level without its label (`Unfinished`).  Either way the error is
about a line of the source, and what is found at a line is found there whatever text follows
(`assemble_eq_error`).
-/

namespace ModuleHost

namespace Text

/-- The lines of a text are those with which any longer text begins. -/
theorem exists_lines_append (cs ds : List Char) :
    ∃ more, lines (cs ++ '\n' :: ds) = lines cs ++ more := by
  have hne : ds.splitOn '\n' ≠ [] := List.splitOn_ne_nil '\n' ds
  have hsplit : (cs ++ '\n' :: ds).splitOn '\n' = cs.splitOn '\n' ++ ds.splitOn '\n' :=
    List.splitOn_append_cons_self cs ds
  -- the last piece is left out or not, which is none of the pieces of the first text
  obtain ⟨more, hmore⟩ : ∃ more, lines (cs ++ '\n' :: ds) = cs.splitOn '\n' ++ more := by
    rw [lines, hsplit, List.dropLast_append_of_ne_nil hne]
    split
    · exact ⟨_, rfl⟩
    · exact ⟨_, rfl⟩
  obtain ⟨last, hlast⟩ : ∃ last, cs.splitOn '\n' = lines cs ++ last := by
    rw [lines]
    split
    · exact ⟨_, (List.dropLast_append_getLast (List.splitOn_ne_nil '\n' cs)).symm⟩
    · exact ⟨[], (List.append_nil _).symm⟩
  exact ⟨last ++ more, by rw [hmore, hlast, List.append_assoc]⟩

end Text

namespace Assembly

/-- The lines are statements that can stand one after the other, and this is what they say. -/
def Outlines (lines : List (List Char)) (o : Outline) : Prop :=
  ∃ ss, lines.mapM Statement.ofLine = .ok ss ∧ Outline.AcceptsAll {} 1 ss
    ∧ o = Outline.statements {} 1 ss

/-- The line with this number, of lines that are counted from 1, says this. -/
def LineSays (lines : List (List Char)) (number : Nat) (s : Statement) : Prop :=
  ∃ k line, number = k + 1 ∧ lines[k]? = some line ∧ Statement.ofLine line = .ok s

inductive Refused (lines : List (List Char)) : Error → Prop
  /-- The line is no statement. -/
  | unreadable {k : Nat} {line : List Char} {o : Outline} {fault : Fault}
      (hbefore : Outlines (lines.take k) o) (hline : lines[k]? = some line)
      (hfault : Statement.ofLine line = .error fault) : Refused lines ⟨k + 1, fault⟩
  /-- The statement on the line cannot stand there. -/
  | misplaced {k : Nat} {s : Statement} {o : Outline} {fault : Fault}
      (hbefore : Outlines (lines.take k) o) (hline : LineSays lines (k + 1) s)
      (hrefused : o.Refuses (k + 1) s ⟨k + 1, fault⟩) : Refused lines ⟨k + 1, fault⟩
  /-- A function ends on the line, and a jump of it, the first of this kind, has no label. -/
  | astray {k jump : Nat} {o : Outline} {b : Block} {op : Operation} {name : String}
      (hbefore : Outlines (lines.take k) o) (hline : LineSays lines (k + 1) .functionEnd)
      (hcurrent : o.current = some b)
      (hjump : Astray (labelsIn b.items) (operationsIn b.items) jump name)
      (hop : LineSays lines jump (.operation op)) (href : op.reference = .label name) :
      Refused lines ⟨jump, .undefinedLabel name⟩

inductive Unfinished (lines : List (List Char)) : Error → Prop
  /-- A function has not ended.  The error is that of the last line. -/
  | ending {o : Outline} {b : Block} (hlines : Outlines lines o) (hcurrent : o.current = some b) :
      Unfinished lines ⟨lines.length, .unterminatedFunction b.name⟩
  /-- A jump of the top level, the first of this kind, has no label. -/
  | astray {jump : Nat} {o : Outline} {op : Operation} {name : String} (hlines : Outlines lines o)
      (hcurrent : o.current = none)
      (hjump : Astray (labelsIn o.top) (operationsIn o.top) jump name)
      (hop : LineSays lines jump (.operation op)) (href : op.reference = .label name) :
      Unfinished lines ⟨jump, .undefinedLabel name⟩

variable {lines : List (List Char)} {o : Outline} {p : Progress} {filename : String} {e : Error}
  {n : Nat}

/-! ### The line of an error -/

theorem LineSays.bounds {s : Statement} (h : LineSays lines n s) :
    1 ≤ n ∧ n ≤ lines.length := by
  obtain ⟨k, line, rfl, hline, -⟩ := h
  exact ⟨Nat.succ_pos k, (List.getElem?_eq_some_iff.1 hline).1⟩

theorem LineSays.of_take {s : Statement} {k : Nat} (h : LineSays (lines.take k) n s) :
    LineSays lines n s := by
  obtain ⟨j, line, hn, hline, hs⟩ := h
  refine ⟨j, line, hn, ?_, hs⟩
  rw [List.getElem?_take] at hline
  split at hline
  · exact hline
  · cases hline

theorem Outlines.arranged (h : Outlines lines o) :
    ∃ ss, lines.mapM Statement.ofLine = .ok ss ∧ o.Arranged ss := by
  obtain ⟨ss, hmap, ha, rfl⟩ := h
  exact ⟨ss, hmap, arranged_statements ha⟩

/-- A jump without a label stands on the line that the error gives. -/
theorem Astray.says {ss : List Statement} (hmap : lines.mapM Statement.ofLine = .ok ss)
    {items : List (Item × Nat)} (harranged : Arranged ss items) {jump : Nat} {name : String}
    (h : Astray (labelsIn items) (operationsIn items) jump name) :
    ∃ op, LineSays lines jump (.operation op) ∧ op.reference = .label name := by
  obtain ⟨before, op, after, heq, href, -, -⟩ := h
  have hmem : (op, jump) ∈ operationsIn items := by
    rw [heq]
    exact List.mem_append_right before List.mem_cons_self
  obtain ⟨k, s, hline, hs, hgives⟩ := harranged.given _ (mem_of_mem_operationsIn hmem)
  obtain ⟨line, hat, hreads⟩ := getElem?_of_forall₂ (forall₂_of_mapM hmap) hs
  cases s with
  | blank | functionEnd => cases hgives
  | label => cases hgives
  | functionStart word? =>
    obtain ⟨child, hitem⟩ := hgives
    obtain rfl : op = bindingOf child _ := Item.operation.inj hitem
    cases href
  | operation op' =>
    cases hgives
    exact ⟨op, ⟨k, line, hline, hat, hreads⟩, href⟩

theorem Refused.line_bounds (h : Refused lines e) : 1 ≤ e.line ∧ e.line ≤ lines.length := by
  cases h with
  | unreadable _ hline => exact ⟨Nat.succ_pos _, (List.getElem?_eq_some_iff.1 hline).1⟩
  | misplaced _ hline => exact hline.bounds
  | astray _ _ _ _ hop => exact hop.bounds

theorem Unfinished.line_bounds (h : Unfinished lines e) : 1 ≤ e.line ∧ e.line ≤ lines.length := by
  cases h with
  | astray _ _ _ hop => exact hop.bounds
  | ending hlines hcurrent =>
    refine ⟨Nat.pos_of_ne_zero fun hnone => ?_, Nat.le_refl _⟩
    obtain ⟨ss, hmap, -, rfl⟩ := hlines
    rw [List.eq_nil_of_length_eq_zero hnone] at hmap
    cases hmap
    cases hcurrent

/-! ### Where an error is found -/

/-- Lines that are not assembled have a first one that is no statement or is refused. -/
theorem foldlM_eq_error (h : p.Holds filename o)
    (herror : (lines.zipIdx n).foldlM (Progress.line filename) p = .error e) :
    ∃ k line ss, lines[k]? = some line ∧ (lines.take k).mapM Statement.ofLine = .ok ss
      ∧ o.AcceptsAll n ss
      ∧ ((∃ fault, Statement.ofLine line = .error fault ∧ e = ⟨n + k, fault⟩)
        ∨ ∃ s, Statement.ofLine line = .ok s ∧ (o.statements n ss).Refuses (n + k) s e) := by
  induction lines generalizing p o n with
  | nil => cases herror
  | cons line lines ih =>
    cases hs : Statement.ofLine line with
    | error fault =>
      rw [List.zipIdx_cons, List.foldlM_cons, Progress.line, hs] at herror
      cases herror
      exact ⟨0, line, [], rfl, rfl, trivial, Or.inl ⟨fault, hs, rfl⟩⟩
    | ok s =>
      rw [foldlM_line_cons hs] at herror
      rcases h.statement n s with ⟨ha, p₁, heq, h₁⟩ | ⟨e', hrefused, heq⟩
      · rw [heq] at herror
        obtain ⟨k, line', ss, hline, hmap, hall, hrest⟩ := ih h₁ herror
        refine ⟨k + 1, line', s :: ss, hline, ?_, ⟨ha, hall⟩, ?_⟩
        · rw [List.take_succ_cons, List.mapM_cons, hs, hmap]
          rfl
        · rw [Nat.add_right_comm, Nat.add_assoc] at hrest
          exact hrest
      · rw [heq] at herror
        cases herror
        exact ⟨0, line, [], rfl, rfl, trivial, Or.inr ⟨s, hs, hrefused⟩⟩

/-- A line that cannot stand where it does. -/
theorem refused_of_refuses {k : Nat} {s : Statement} (hbefore : Outlines (lines.take k) o)
    (hline : LineSays lines (k + 1) s) (h : o.Refuses (k + 1) s e) : Refused lines e := by
  cases h with
  | astray hcurrent hjump =>
    obtain ⟨ss, hmap, harranged⟩ := hbefore.arranged
    have hblock := harranged.blocks _
      (List.mem_append_right o.functions (Option.mem_toList.2 hcurrent))
    obtain ⟨op, hop, href⟩ := hjump.says hmap hblock
    exact .astray hbefore hline hcurrent hjump hop.of_take href
  | nested word? hcurrent => exact .misplaced hbefore hline (.nested word? hcurrent)
  | unnamed hcurrent => exact .misplaced hbefore hline (.unnamed hcurrent)
  | misnamed hcurrent hname => exact .misplaced hbefore hline (.misnamed hcurrent hname)
  | tooMany hcurrent hname hmany => exact .misplaced hbefore hline (.tooMany hcurrent hname hmany)
  | unstarted hcurrent => exact .misplaced hbefore hline (.unstarted hcurrent)
  | duplicate hlabel => exact .misplaced hbefore hline (.duplicate hlabel)

theorem refused_of_foldlM
    (herror : (lines.zipIdx 1).foldlM (Progress.line filename) (Progress.start filename)
      = .error e) : Refused lines e := by
  obtain ⟨k, line, ss, hline, hmap, hall, hcases⟩ :=
    foldlM_eq_error (Progress.holds_start filename) herror
  have hbefore : Outlines (lines.take k) (Outline.statements {} 1 ss) := ⟨ss, hmap, hall, rfl⟩
  rw [Nat.add_comm 1 k] at hcases
  rcases hcases with ⟨fault, hfault, rfl⟩ | ⟨s, hs, hrefused⟩
  · exact .unreadable hbefore hline hfault
  · exact refused_of_refuses hbefore ⟨k, line, rfl, hline, hs⟩ hrefused

theorem unfinished_of_lacks (h : Outlines lines o) (hlacks : o.Lacks lines.length e) :
    Unfinished lines e := by
  cases hlacks with
  | ending hcurrent => exact .ending h hcurrent
  | label hcurrent hjump =>
    obtain ⟨ss, hmap, harranged⟩ := h.arranged
    obtain ⟨op, hop, href⟩ := hjump.says hmap harranged.top
    exact .astray h hcurrent hjump hop href

/-- What is refused at a line is refused whatever lines follow. -/
theorem foldlM_append_eq_error {more : List (List Char)}
    (herror : (lines.zipIdx n).foldlM (Progress.line filename) p = .error e) :
    ((lines ++ more).zipIdx n).foldlM (Progress.line filename) p = .error e := by
  rw [List.zipIdx_append, List.foldlM_append, herror]
  rfl

/-- What is found at the end of a source concerns a function without its end or a label. -/
theorem Unfinished.fault (h : Unfinished lines e) :
    (∃ name, e.fault = .unterminatedFunction name) ∨ ∃ name, e.fault = .undefinedLabel name := by
  cases h with
  | ending => exact Or.inl ⟨_, rfl⟩
  | astray => exact Or.inr ⟨_, rfl⟩

/-- A source that is not assembled is refused at a line, and then so is every source that goes on
behind it; or it is refused at its end.  The error has the number of one of its lines. -/
theorem assemble_eq_error {source : String} (h : assemble source filename = .error e) :
    let lines := Text.lines source.toList
    1 ≤ e.line ∧ e.line ≤ lines.length
      ∧ (Refused lines e ∧ (∀ text, assemble (source ++ "\n" ++ text) filename = .error e)
        ∨ Unfinished lines e) := by
  intro lines
  have hcases : Refused lines e ∧ (∀ text, assemble (source ++ "\n" ++ text) filename = .error e)
      ∨ Unfinished lines e := by
    rw [assemble] at h
    cases hfold : ((Text.lines source.toList).zipIdx 1).foldlM (Progress.line filename)
        (Progress.start filename) with
    | error e' =>
      rw [hfold] at h
      cases h
      refine Or.inl ⟨refused_of_foldlM hfold, fun text => ?_⟩
      obtain ⟨more, hmore⟩ := Text.exists_lines_append source.toList text.toList
      have hlist : (source ++ "\n" ++ text).toList = source.toList ++ '\n' :: text.toList := by
        simp
      rw [assemble, hlist, hmore, foldlM_append_eq_error hfold]
      rfl
    | ok p =>
      rw [hfold] at h
      have hfinish : p.finish (Text.lines source.toList).length = .error e := h
      obtain ⟨ss, hmap, hall, hp⟩ := foldlM_eq_ok (Progress.holds_start filename) hfold
      rcases hp.finish (Text.lines source.toList).length with ⟨-, us, heq, -⟩ | ⟨e', hlacks, heq⟩
      · rw [heq] at hfinish
        cases hfinish
      · rw [heq] at hfinish
        cases hfinish
        exact Or.inr (unfinished_of_lacks ⟨ss, hmap, hall, rfl⟩ hlacks)
  have hbounds : 1 ≤ e.line ∧ e.line ≤ lines.length := by
    rcases hcases with ⟨hrefused, -⟩ | hunfinished
    · exact hrefused.line_bounds
    · exact hunfinished.line_bounds
  exact ⟨hbounds.1, hbounds.2, hcases⟩

/-- A label that is defined twice in a function which has no end yet. -/
theorem assemble_eq_error_duplicate :
    let source := ".def f\nx:\n\nx:"
    assemble source "a.nl" = .error ⟨4, .duplicateLabel "x"⟩
      ∧ Refused (Text.lines source.toList) ⟨4, .duplicateLabel "x"⟩
      ∧ ∀ text, assemble (source ++ "\n" ++ text) "a.nl" = .error ⟨4, .duplicateLabel "x"⟩ := by
  intro source
  have h : assemble source "a.nl" = .error ⟨4, .duplicateLabel "x"⟩ := by decide +kernel
  obtain ⟨-, -, hrefused | hunfinished⟩ := assemble_eq_error h
  · exact ⟨h, hrefused⟩
  · rcases hunfinished.fault with ⟨name, hname⟩ | ⟨name, hname⟩
    · cases hname
    · cases hname

end Assembly

end ModuleHost
