import ModuleHost.Proofs.Assembly.Calls

/-!
# Writing sources made of calls

Each call takes two lines: one that loads its text and one that hands the text to the function.  If
the text has no quote, no backslash and no line feed it can stand between quotes as it is, and the
lines are read as the call they were written for (`makesCalls_sourceOf`).
-/

namespace ModuleHost

namespace Text

theorem trim_eq_self {cs : List Char} (h₁ : ∀ c ∈ cs.head?, isBlank c = false)
    (h₂ : ∀ c ∈ cs.getLast?, isBlank c = false) : trim cs = cs := by
  have hkeep : ∀ ds : List Char, (∀ c ∈ ds.head?, isBlank c = false) →
      ds.dropWhile isBlank = ds := by
    intro ds hds
    cases ds with
    | nil => rfl
    | cons d ds =>
      have hd := hds d rfl
      rw [List.dropWhile_cons_of_neg (by rw [hd]; decide)]
  have hlast : ∀ c ∈ cs.reverse.head?, isBlank c = false := by
    rw [List.head?_reverse]
    exact h₂
  rw [trim, trimStart, hkeep cs h₁, trimEnd, hkeep cs.reverse hlast, List.reverse_reverse]

theorem lines_append {l : List Char} (h : '\n' ∉ l) (rest : List Char) :
    lines (l ++ '\n' :: rest) = l :: lines rest := by
  have hsplit : (l ++ '\n' :: rest).splitOn '\n' = l :: rest.splitOn '\n' := by
    rw [List.splitOn_append_cons_self, List.splitOn_eq_singleton h]
    rfl
  have hne : rest.splitOn '\n' ≠ [] := List.splitOn_ne_nil '\n' rest
  rw [lines, lines, hsplit, List.getLast?_cons_of_ne_nil hne]
  split
  · rw [List.dropLast_cons_of_ne_nil hne]
  · rfl

end Text

namespace Assembly

/-- The characters stand between quotes for themselves, on one line. -/
def Plain (cs : List Char) : Prop := ∀ c ∈ cs, c ≠ '"' ∧ c ≠ '\\' ∧ c ≠ '\n'

variable {cs : List Char}

theorem Plain.tail {c : Char} (h : Plain (c :: cs)) : Plain cs :=
  fun d hd => h d (List.mem_cons_of_mem _ hd)

theorem Plain.next {c : Char} (h : Plain (c :: cs)) : Quoting.inside.next c = .inside := by
  obtain ⟨hquote, hbackslash, _⟩ := h c List.mem_cons_self
  rw [Quoting.next, if_neg hbackslash, if_neg hquote]

theorem beforeComment_plain (h : Plain cs) :
    beforeComment .inside (cs ++ ['"']) = cs ++ ['"'] := by
  induction cs with
  | nil => rfl
  | cons c cs ih =>
    rw [List.cons_append, beforeComment, if_neg (by simp), h.next, ih h.tail]

theorem commaPieces?_plain (h : Plain cs) :
    commaPieces? .inside (cs ++ ['"']) = some [cs ++ ['"']] := by
  induction cs with
  | nil => rfl
  | cons c cs ih =>
    rw [List.cons_append, commaPieces?, if_neg (by simp), h.next, ih h.tail]
    rfl

theorem unescape_plain (h : Plain cs) : unescape cs = .ok cs := by
  induction cs with
  | nil => rfl
  | cons c cs ih =>
    obtain ⟨_, hbackslash, _⟩ := h c List.mem_cons_self
    rw [unescape, ih h.tail]
    · rfl
    · intro hc _
      exact hbackslash hc
    · intro _ _ hc _
      exact hbackslash hc

theorem stringLiteral_plain (h : Plain cs) :
    stringLiteral ('"' :: (cs ++ ['"'])) = .ok (String.ofList cs) := by
  have hbetween : betweenQuotes? ('"' :: (cs ++ ['"'])) = some cs := by
    rw [betweenQuotes?, List.getLast?_concat, if_pos rfl, List.dropLast_concat]
  rw [stringLiteral, hbetween]
  dsimp only
  rw [unescape_plain h]
  rfl

def textLine (cs : List Char) : List Char :=
  ['s', 't', 'r', ' ', 'r', '1', ',', ' ', '"'] ++ (cs ++ ['"'])

theorem operandsOf_textLine (h : Plain cs) :
    operandsOf (['r', '1', ',', ' ', '"'] ++ (cs ++ ['"']))
      = .ok [['r', '1'], '"' :: (cs ++ ['"'])] := by
  have hpieces : commaPieces? .outside (['r', '1', ',', ' ', '"'] ++ (cs ++ ['"']))
      = some [['r', '1'], [' ', '"'] ++ (cs ++ ['"'])] := by
    simp [commaPieces?, Quoting.next, commaPieces?_plain h]
  have hquoted : Text.trim ([' ', '"'] ++ (cs ++ ['"'])) = '"' :: (cs ++ ['"']) := by
    show Text.trim ('"' :: (cs ++ ['"'])) = _
    apply Text.trim_eq_self
    · rintro c ⟨⟩
      decide
    · rw [← List.cons_append, List.getLast?_concat]
      rintro c ⟨⟩
      decide
  rw [operandsOf, if_neg (by simp), hpieces]
  show Except.ok [Text.trim ['r', '1'], Text.trim ([' ', '"'] ++ (cs ++ ['"']))] = _
  rw [hquoted]
  rfl

/-- A line that is no directive and no label is an operation. -/
theorem Statement.ofTrimmed_operation {first : Char} {rest : List Char} {o : Operation}
    (hdot : first ≠ '.') (hlabel : labelOfLine? (first :: rest) = none)
    (ho : operationOfLine (first :: rest) = .ok o) :
    Statement.ofTrimmed (first :: rest) = .ok (.operation o) := by
  unfold Statement.ofTrimmed
  split
  · next heq => cases heq
  · next heq => exact absurd (List.cons.inj heq).1 hdot
  · rw [hlabel, ho]
    rfl

theorem ofLine_textLine (h : Plain cs) :
    Statement.ofLine (textLine cs) = .ok (.operation {
      instruction := { opcode := .loadStr, dest := 1 }
      reference := .symbol (String.ofList cs) }) := by
  have hends : ∀ before : List Char, ∀ c ∈ (before ++ (cs ++ ['"'])).getLast?,
      Text.isBlank c = false := by
    intro before
    rw [← List.append_assoc, List.getLast?_concat]
    rintro c ⟨⟩
    decide
  have hcomment : beforeComment .outside (textLine cs) = textLine cs := by
    have hquote : beforeComment .outside (textLine cs)
        = ['s', 't', 'r', ' ', 'r', '1', ',', ' ', '"']
          ++ beforeComment .inside (cs ++ ['"']) := rfl
    rw [hquote, beforeComment_plain h, textLine]
  have htrim : Text.trim (textLine cs) = textLine cs := by
    refine Text.trim_eq_self ?_ (hends _)
    rintro c ⟨⟩
    decide
  have hlabel : labelOfLine? (textLine cs) = none := by
    rw [labelOfLine?, textLine, ← List.append_assoc, List.getLast?_concat, if_neg (by simp)]
  have hrest : Text.trim (['r', '1', ',', ' ', '"'] ++ (cs ++ ['"']))
      = ['r', '1', ',', ' ', '"'] ++ (cs ++ ['"']) := by
    refine Text.trim_eq_self ?_ (hends _)
    rintro c ⟨⟩
    decide
  have hcut : Text.cutAtBlank (textLine cs)
      = (['s', 't', 'r'], ['r', '1', ',', ' ', '"'] ++ (cs ++ ['"'])) := rfl
  have hword : Mnemonic.ofWord? ['s', 't', 'r'] = some (.plain .loadStr) := by decide
  have hoperation : operationOfLine (textLine cs) = .ok {
      instruction := { opcode := .loadStr, dest := 1 }
      reference := .symbol (String.ofList cs) } := by
    rw [operationOfLine, hcut]
    dsimp only
    rw [hrest, operandsOf_textLine h, hword]
    show (do
      let text ← stringLiteral ('"' :: (cs ++ ['"']))
      return ({ instruction := { opcode := .loadStr, dest := 1 }, reference := .symbol text } :
        Operation)) = _
    rw [stringLiteral_plain h]
    rfl
  rw [Statement.ofLine, hcomment, htrim]
  exact Statement.ofTrimmed_operation (by decide) hlabel hoperation

def callLine (function : String) : List Char :=
  "call r0, ".toList ++ function.toList ++ ", r1, 1".toList

def sourceOf (calls : List TextCall) : String :=
  String.ofList (calls.flatMap fun c =>
    textLine c.text.toList ++ '\n' :: (callLine c.function ++ ['\n']))

theorem ofLine_callLine {function : String} (h : function = "require" ∨ function = "print") :
    Statement.ofLine (callLine function) = .ok (.operation {
      instruction := { opcode := .call, dest := 0, src1 := 1, mode := 1 }
      reference := .symbol function }) := by
  rcases h with rfl | rfl <;> decide

theorem makesCalls_sourceOf {calls : List TextCall}
    (h : ∀ c ∈ calls, Plain c.text.toList ∧ (c.function = "require" ∨ c.function = "print")) :
    MakesCalls (sourceOf calls) calls := by
  rw [MakesCalls, sourceOf, String.toList_ofList]
  induction calls with
  | nil => exact ⟨[], [], rfl, rfl, .nil⟩
  | cons c calls ih =>
    obtain ⟨statements, ops, hstatements, hops, hspelled⟩ :=
      ih fun d hd => h d (List.mem_cons_of_mem _ hd)
    obtain ⟨hplain, hfunction⟩ := h c List.mem_cons_self
    have htext : '\n' ∉ textLine c.text.toList := by
      rw [textLine, List.mem_append, List.mem_append]
      rintro (hmem | hmem | hmem)
      · exact absurd hmem (by decide)
      · exact (hplain _ hmem).2.2 rfl
      · exact absurd hmem (by decide)
    have hcall : '\n' ∉ callLine c.function := by
      rcases hfunction with hf | hf <;> rw [hf] <;> decide
    let load : Operation :=
      { instruction := { opcode := .loadStr, dest := 1 }, reference := .symbol c.text }
    let call : Operation :=
      { instruction := { opcode := .call, dest := 0, src1 := 1, mode := 1 }
        reference := .symbol c.function }
    have hload : Statement.ofLine (textLine c.text.toList) = .ok (.operation load) := by
      rw [ofLine_textLine hplain, String.ofList_toList]
    have hcalled : Statement.ofLine (callLine c.function) = .ok (.operation call) :=
      ofLine_callLine hfunction
    have hlines : ∀ rest : List Char,
        Text.lines (textLine c.text.toList ++ '\n' :: (callLine c.function ++ ['\n']) ++ rest)
          = textLine c.text.toList :: callLine c.function :: Text.lines rest := by
      intro rest
      rw [List.append_assoc, List.cons_append, List.append_assoc, Text.lines_append htext,
        List.singleton_append, Text.lines_append hcall]
    refine ⟨.operation load :: .operation call :: statements, load :: call :: ops, ?_, ?_,
      .cons (by decide) (by decide) hspelled⟩
    · rw [List.flatMap_cons, hlines, List.mapM_cons, List.mapM_cons, hload, hcalled, hstatements]
      rfl
    · rw [operationsOf?, operationsOf?, hops]
      rfl

end Assembly

end ModuleHost
