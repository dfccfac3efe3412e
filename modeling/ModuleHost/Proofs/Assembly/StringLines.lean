import ModuleHost.Proofs.Assembly.Calls
import ModuleHost.Proofs.Assembly.Literals
import ModuleHost.Proofs.Assembly.Scans

/-!
# Lines that load strings

A line that loads a string is a mnemonic, a register and, behind a comma, an operand.  It is
accepted if and only if the operand is a string literal and what is behind it is in order, and then
the symbol is the text of the literal (`strings_read`).  The exception are operands that run on:
several literals in a row are taken for one, with the quotes in between (`literal_runs_on`).
-/

namespace ModuleHost.Assembly

variable {cs operand inner head tail : List Char} {text : String} {dest : UInt8}

/-! ### The second operand -/

/-- What can stand behind an operand: nothing, a comment, or a comma and more, which must not end
inside a string literal. -/
def Behind (rest : List Char) : Prop :=
  (∀ c ∈ rest.head?, startsComment c) ∨ ∃ more, rest = ',' :: more ∧ EndsOutside more

/-- What is behind the first operand of a line starts with a comma and this operand. -/
def SecondOperand (tail operand : List Char) : Prop :=
  ∃ before after rest, tail = ',' :: (before ++ (operand ++ (after ++ rest)))
    ∧ (∀ c ∈ before, Text.isBlank c) ∧ (∀ c ∈ after, Text.isBlank c) ∧ Behind rest

/-- The text up to the comment, without the blanks in front of the comment. -/
def codeOf (cs : List Char) : List Char := Text.trimEnd (beforeComment .outside cs)

/-- The code of a text, the blanks behind it and the comment. -/
theorem exists_codeOf (cs : List Char) : ∃ blanks comment, cs = codeOf cs ++ (blanks ++ comment)
    ∧ beforeComment .outside cs = codeOf cs ++ blanks ∧ (∀ c ∈ blanks, Text.isBlank c)
    ∧ ∀ c ∈ comment.head?, startsComment c := by
  obtain ⟨comment, hcs, hcomment⟩ := exists_comment .outside cs
  obtain ⟨blanks, hcode, hblanks⟩ := Text.exists_trimEnd (beforeComment .outside cs)
  refine ⟨blanks, comment, ?_, hcode, hblanks, hcomment⟩
  rw [← List.append_assoc, codeOf, ← hcode]
  exact hcs

theorem beforeComment_codeOf (cs : List Char) :
    beforeComment .outside (codeOf cs) = codeOf cs := by
  obtain ⟨blanks, -, -, hcode, -⟩ := exists_codeOf cs
  have hsame : beforeComment .outside (codeOf cs ++ blanks) = codeOf cs ++ blanks := by
    rw [← hcode, beforeComment_beforeComment]
  exact beforeComment_of_append hsame

theorem endsOutside_iff : EndsOutside cs ↔ (commaPieces? .outside (codeOf cs)).isSome = true := by
  rw [isSome_commaPieces?_iff, codeOf, after_trimEnd_iff, EndsOutside]

theorem beforeComment_of_behind {rest : List Char} (h : Behind rest) :
    beforeComment .outside rest = []
      ∨ ∃ more pieces, beforeComment .outside rest = ',' :: more
        ∧ commaPieces? .outside (Text.trimEnd more) = some pieces := by
  rcases h with h | ⟨more, rfl, hmore⟩
  · exact .inl (beforeComment_of_head h)
  · obtain ⟨pieces, hpieces⟩ := Option.isSome_iff_exists.1 (endsOutside_iff.1 hmore)
    exact .inr ⟨beforeComment .outside more, pieces, rfl, hpieces⟩

/-- The first piece of a text is whole and stands between blanks in front of what can stand behind
an operand. -/
theorem operand_of_piece {piece : List Char} {pieces : List (List Char)}
    (h : commaPieces? .outside (codeOf cs) = some (piece :: pieces)) :
    Whole .outside (Text.trim piece) ∧ SecondOperand (',' :: cs) (Text.trim piece) := by
  obtain ⟨hpiece, hsplit⟩ := commaPieces?_eq_cons (beforeComment_codeOf cs) h
  obtain ⟨left, right, hblanks, hleft, hright⟩ := Text.exists_trim piece
  obtain ⟨blanks, comment, hcs, hcode, hbehind, hcomment⟩ := exists_codeOf cs
  have hwhole : Whole .outside (Text.trim piece) := by
    rw [hblanks, whole_blanks_append hleft, whole_append_blanks hright] at hpiece
    exact hpiece
  refine ⟨hwhole, ?_⟩
  rcases hsplit with heq | ⟨rest, heq, hrest⟩
  · refine ⟨left, right ++ blanks, comment, ?_, hleft, ?_, .inl hcomment⟩
    · conv_lhs => rw [hcs, heq, hblanks]
      simp only [List.append_assoc]
    · exact fun c hc => (List.mem_append.1 hc).elim (hright c) (hbehind c)
  · refine ⟨left, right, ',' :: (rest ++ (blanks ++ comment)), ?_, hleft, hright,
      .inr ⟨_, rfl, ?_⟩⟩
    · conv_lhs => rw [hcs, heq, hblanks]
      simp only [List.append_assoc, List.cons_append]
    · have hrestCode : beforeComment .outside (rest ++ (blanks ++ comment)) = rest ++ blanks := by
        have hfront : beforeComment .outside cs
            = piece ++ ',' :: beforeComment .outside (rest ++ (blanks ++ comment)) := by
          conv_lhs => rw [hcs, heq, List.append_assoc, hpiece.beforeComment_append]
          rfl
        rw [hcode, heq, List.append_assoc] at hfront
        exact (List.cons.inj (List.append_cancel_left hfront)).2.symm
      rw [EndsOutside, hrestCode, after_append, after_blanks_iff hbehind,
        ← isSome_commaPieces?_iff, hrest]
      rfl

/-- An operand that is whole and has quotes at its ends is the first piece of its text. -/
theorem piece_of_operand (h : SecondOperand (',' :: cs) operand) (hwhole : Whole .outside operand)
    (hquotes : operand = '"' :: (inner ++ ['"'])) :
    ∃ piece pieces, commaPieces? .outside (codeOf cs) = some (piece :: pieces)
      ∧ Text.trim piece = operand := by
  obtain ⟨before, after, rest, heq, hbefore, hafter, hrest⟩ := h
  obtain rfl := (List.cons.inj heq).2
  have htrim : Text.trim operand = operand := by
    refine Text.trim_eq_self (fun c hc => ?_) fun c hc => ?_
    · rw [hquotes] at hc
      cases hc
      rfl
    · rw [hquotes, ← List.cons_append, List.getLast?_concat] at hc
      cases hc
      rfl
  have hfront : Whole .outside (before ++ operand) := (whole_blanks hbefore).append hwhole
  -- the closing quote is no blank
  have hcode : codeOf (before ++ (operand ++ (after ++ rest)))
      = before ++ (operand ++ Text.trimEnd (after ++ beforeComment .outside rest)) := by
    have hlast : ∀ more, before ++ (operand ++ more)
        = (before ++ '"' :: inner) ++ '"' :: more := by
      intro more
      rw [hquotes]
      simp only [List.append_assoc, List.cons_append, List.nil_append]
    rw [codeOf, (whole_blanks hbefore).beforeComment_append, hwhole.beforeComment_append,
      (whole_blanks hafter).beforeComment_append, hlast, Text.trimEnd_append_cons rfl, ← hlast]
  rcases beforeComment_of_behind hrest with hnone | ⟨more, pieces, hmore, hpieces⟩
  · refine ⟨before ++ operand, [], ?_, ?_⟩
    · rw [hcode, hnone, List.append_nil, Text.trimEnd_of_forall hafter, List.append_nil]
      exact hfront.commaPieces?_eq
    · rw [Text.trim_blanks_append hbefore, htrim]
  · refine ⟨before ++ (operand ++ after), pieces, ?_, ?_⟩
    · have hpiece : Whole .outside (before ++ (operand ++ after)) :=
        (whole_blanks hbefore).append (hwhole.append (whole_blanks hafter))
      rw [hcode, hmore, Text.trimEnd_append_cons rfl, ← List.append_assoc operand,
        ← List.append_assoc before, hpiece.commaPieces?_comma, hpieces]
      rfl
    · rw [Text.trim_blanks hbefore hafter, htrim]

/-! ### The line -/

theorem isWordChar_of_toLower {c : Char} (h : isWordChar c.toLower = true) :
    isWordChar c = true := by
  by_cases hupper : c.isUpper = true
  · have halpha : c.isAlpha = true := Bool.or_eq_true_iff.2 (.inl hupper)
    have halphanum : c.isAlphanum = true := Bool.or_eq_true_iff.2 (.inl halpha)
    simp only [isWordChar, halphanum, Bool.true_or]
  · have hsame : c.toLower = c := dif_neg fun hc => hupper (decide_eq_true hc)
    rwa [hsame] at h

theorem cutAtBlank_append {word rest : List Char} {g : Char}
    (hword : ∀ c ∈ word, Text.isBlank c = false) (hg : Text.isBlank g = true) :
    Text.cutAtBlank (word ++ g :: rest) = (word, rest) := by
  have hkeep : ∀ c ∈ word, (!Text.isBlank c) = true := fun c hc => by rw [hword c hc]; rfl
  have hstop : ¬ (!Text.isBlank g) = true := by rw [hg]; decide
  have htake : (g :: rest).takeWhile (!Text.isBlank ·) = [] := List.takeWhile_cons_of_neg hstop
  have hdrop : (g :: rest).dropWhile (!Text.isBlank ·) = g :: rest :=
    List.dropWhile_cons_of_neg hstop
  rw [Text.cutAtBlank, List.takeWhile_append_of_pos hkeep, List.dropWhile_append_of_pos hkeep,
    htake, hdrop, List.append_nil]
  rfl

/-- A line with a blank in it is no label. -/
theorem labelOfLine?_of_blank {word rest : List Char} {g : Char} (hg : Text.isBlank g = true)
    (hrest : rest ≠ []) : labelOfLine? (word ++ g :: rest) = none := by
  refine if_neg fun h => ?_
  have hmem : g ∈ (word ++ g :: rest).dropLast := by
    rw [List.dropLast_append_of_ne_nil (List.cons_ne_nil g rest),
      List.dropLast_cons_of_ne_nil hrest]
    exact List.mem_append_right word List.mem_cons_self
  have hword := isBlank_of_isWordChar ((word_of_isName h.2).2 g hmem)
  rw [hg] at hword
  cases hword

/-- The operation of a line that begins with a mnemonic, blanks and something else. -/
theorem ofLine_of_code {line left word gap body : List Char} {b : Char} {m : Mnemonic}
    (hcode : beforeComment .outside line = left ++ (word ++ (gap ++ b :: body)))
    (hleft : ∀ c ∈ left, Text.isBlank c) (hword : ∀ c ∈ word, isWordChar c = true)
    (hne : word ≠ []) (hm : Mnemonic.ofWord? word = some m) (hgap : ∀ c ∈ gap, Text.isBlank c)
    (hsome : gap ≠ []) (hb : Text.isBlank b = false) :
    Statement.ofLine line
      = (operandsOf (Text.trimEnd (b :: body)) >>= operationOf m).map .operation := by
  obtain ⟨w, word', rfl⟩ := List.exists_cons_of_ne_nil hne
  obtain ⟨g, gap', rfl⟩ := List.exists_cons_of_ne_nil hsome
  have hw := hword w List.mem_cons_self
  have hend : Text.trimEnd (b :: body) = b :: Text.trimEnd body :=
    Text.trimEnd_append_cons hb [] body
  have htrimmed : Text.trim (left ++ (w :: word' ++ (g :: gap' ++ b :: body)))
      = w :: word' ++ (g :: gap' ++ Text.trimEnd (b :: body)) := by
    rw [Text.trim_blanks_append hleft, hend, ← List.append_assoc, ← List.append_assoc]
    exact (Text.trim_cons (isBlank_of_isWordChar hw) _).trans
      (Text.trimEnd_append_cons hb (w :: (word' ++ g :: gap')) body)
  have hcut : Text.cutAtBlank (w :: word' ++ (g :: gap' ++ Text.trimEnd (b :: body)))
      = (w :: word', gap' ++ Text.trimEnd (b :: body)) :=
    cutAtBlank_append (fun c hc => isBlank_of_isWordChar (hword c hc)) (hgap g List.mem_cons_self)
  have hrest : Text.trim (gap' ++ Text.trimEnd (b :: body)) = Text.trimEnd (b :: body) := by
    rw [Text.trim_blanks_append fun c hc => hgap c (List.mem_cons_of_mem g hc), hend,
      Text.trim_cons hb, ← hend, Text.trimEnd_trimEnd]
  have hlabel : labelOfLine? (w :: word' ++ (g :: gap' ++ Text.trimEnd (b :: body))) = none := by
    refine labelOfLine?_of_blank (hgap g List.mem_cons_self) ?_
    rw [hend]
    exact List.append_ne_nil_of_right_ne_nil gap' (List.cons_ne_nil _ _)
  have hoperation : operationOfLine (w :: word' ++ (g :: gap' ++ Text.trimEnd (b :: body)))
      = (operandsOf (Text.trimEnd (b :: body)) >>= operationOf m) := by
    rw [operationOfLine, hcut]
    dsimp only
    rw [hrest, hm]
  rw [Statement.ofLine, hcode, htrimmed, ← hoperation]
  rw [List.cons_append] at hlabel ⊢
  unfold Statement.ofTrimmed
  split
  · next heq => cases heq
  · next heq => exact absurd (List.cons.inj heq).1 (ne_of_isWordChar hw rfl)
  · rw [hlabel]

/-- No character of a register means anything to the scans. -/
theorem plain_of_register {r : UInt8} (h : register operand = .ok r) : operand ≠ []
    ∧ ∀ c ∈ operand, Text.isBlank c = false ∧ startsComment c = false ∧ c ≠ ',' ∧ c ≠ '"' := by
  obtain ⟨letter, sign, digits, hletter, -, rfl, hdigits, -⟩ := register_eq_ok_iff.1 h
  have hdigit : ∀ c, Text.digitNumber c < 10 →
      Text.isBlank c = false ∧ startsComment c = false ∧ c ≠ ',' ∧ c ≠ '"' := by
    intro c hc
    have hascii : c.toNat < 128 := by
      by_contra hhigh
      rw [Text.digitNumber_of_le (Nat.not_lt.1 hhigh)] at hc
      exact absurd hc (by decide)
    exact Text.forall_ascii (p := fun c => Text.digitNumber c < 10 →
      Text.isBlank c = false ∧ startsComment c = false ∧ c ≠ ',' ∧ c ≠ '"') (by decide) hascii hc
  refine ⟨List.cons_ne_nil _ _, fun c hc => ?_⟩
  rcases List.mem_cons.1 hc with rfl | hc
  · rcases hletter with rfl | rfl <;> decide
  rcases List.mem_append.1 hc with hc | hc
  · cases sign with
    | none => cases hc
    | plus | minus =>
      rw [List.mem_singleton.1 hc]
      decide
  · exact hdigit c (hdigits.valid c hc)

/-- The text is the beginning of a line that loads a string: the mnemonic, and behind blanks the
register that the string is loaded into. -/
def LoadsInto (head : List Char) (dest : UInt8) : Prop :=
  ∃ left word gap operand right, head = left ++ (word ++ (gap ++ (operand ++ right)))
    ∧ (∀ c ∈ left, Text.isBlank c) ∧ word.map Char.toLower = ['s', 't', 'r']
    ∧ gap ≠ [] ∧ (∀ c ∈ gap, Text.isBlank c) ∧ register operand = .ok dest
    ∧ ∀ c ∈ right, Text.isBlank c

def loadString (dest : UInt8) (text : String) : Operation :=
  { instruction := { opcode := .loadStr, dest }, reference := .symbol text }

theorem operandsOf_of_ne_nil (hne : cs ≠ []) :
    operandsOf cs = match commaPieces? .outside cs with
      | some pieces => .ok (pieces.map Text.trim)
      | none => .error .unterminatedString :=
  if_neg fun hempty => hne (List.isEmpty_iff.1 hempty)

/-- The operands from which a string is loaded. -/
theorem operationOf_loadStr {operands : List (List Char)} {o : Operation} :
    operationOf (.plain .loadStr) operands = .ok o ↔ ∃ first second others dest text,
      operands = first :: second :: others ∧ register first = .ok dest
        ∧ stringLiteral second = .ok text ∧ o = loadString dest text := by
  constructor
  · intro h
    rcases operands with _ | ⟨first, _ | ⟨second, others⟩⟩
    · cases h
    · simp only [operationOf, operandAt_zero, ok_bind] at h
      cases hfirst : register first with
      | error e => rw [hfirst] at h; cases h
      | ok dest => rw [hfirst] at h; cases h
    · simp only [operationOf, operandAt_zero, operandAt_succ, ok_bind] at h
      cases hfirst : register first with
      | error e => rw [hfirst] at h; cases h
      | ok dest =>
        cases hsecond : stringLiteral second with
        | error e => rw [hfirst, hsecond] at h; cases h
        | ok text =>
          rw [hfirst, hsecond] at h
          exact ⟨first, second, others, dest, text, rfl, hfirst, hsecond, (Except.ok.inj h).symm⟩
  · rintro ⟨first, second, others, dest, text, rfl, hfirst, hsecond, rfl⟩
    simp only [operationOf, operandAt_zero, operandAt_succ, ok_bind, hfirst, hsecond]
    rfl

/-- Behind the mnemonic there are operands, of which the register is the first one. -/
theorem LoadsInto.exists_register (h : LoadsInto head dest) :
    ∃ first, register (Text.trim first) = .ok dest ∧ Whole .outside first
      ∧ (∀ more, Text.trimEnd (first ++ more) ≠ []) ∧ ∀ tail, Statement.ofLine (head ++ tail)
        = (operandsOf (Text.trimEnd (first ++ beforeComment .outside tail))
          >>= operationOf (.plain .loadStr)).map .operation := by
  obtain ⟨left, word, gap, operand, right, rfl, hleft, hword, hsome, hgap, hoperand, hright⟩ := h
  obtain ⟨hne, hplain⟩ := plain_of_register hoperand
  have htrim : Text.trim (operand ++ right) = operand := by
    rw [Text.trim_append_blanks hright]
    exact Text.trim_eq_self (fun c hc => (hplain c (List.mem_of_head? hc)).1)
      fun c hc => (hplain c (List.mem_of_getLast? hc)).1
  have hletters : ∀ c ∈ word, isWordChar c = true := by
    intro c hc
    have hstr : ['s', 't', 'r'].all isWordChar = true := by decide
    exact isWordChar_of_toLower (List.all_eq_true.1 hstr _ (hword ▸ List.mem_map_of_mem hc))
  have hfirst : Whole .outside (operand ++ right) :=
    (whole_of_forall fun c hc => (hplain c hc).2).append (whole_blanks hright)
  obtain ⟨b, body, rfl⟩ := List.exists_cons_of_ne_nil hne
  have hb := (hplain b List.mem_cons_self).1
  refine ⟨b :: body ++ right, (congrArg register htrim).trans hoperand, hfirst, fun more => ?_,
    fun tail => ?_⟩
  · have hend : Text.trimEnd (b :: body ++ right ++ more)
        = b :: Text.trimEnd (body ++ right ++ more) := Text.trimEnd_append_cons hb [] _
    rw [hend]
    exact List.cons_ne_nil _ _
  · have hm : Mnemonic.ofWord? word = some (.plain .loadStr) := by
      rw [Mnemonic.ofWord?, hword]
      decide
    have hwordNe : word ≠ [] := by
      rintro rfl
      cases hword
    refine ofLine_of_code ?_ hleft hletters hwordNe hm hgap hsome hb
    have hhead := (whole_blanks hleft).append ((whole_word hletters).append
      ((whole_blanks hgap).append hfirst))
    rw [hhead.beforeComment_append, List.append_assoc, List.append_assoc, List.append_assoc]
    rfl

/-- A line without a second operand is refused. -/
theorem LoadsInto.ofLine_ne_ok (h : LoadsInto head dest) (htail : ∀ c ∈ tail.head?, startsComment c)
    (s : Statement) : Statement.ofLine (head ++ tail) ≠ .ok s := by
  obtain ⟨first, hfirst, hwhole, hne, hline⟩ := h.exists_register
  obtain ⟨blanks, heq, hblanks⟩ := Text.exists_trimEnd first
  rw [heq, whole_append_blanks hblanks] at hwhole
  have hne := hne []
  rw [List.append_nil] at hne
  rw [hline, beforeComment_of_head htail, List.append_nil, operandsOf_of_ne_nil hne, hwhole.commaPieces?_eq]
  intro hok
  obtain ⟨o, ho, -⟩ := map_eq_ok hok
  have ho : operationOf (.plain .loadStr) [Text.trim (Text.trimEnd first)] = .ok o := ho
  obtain ⟨_, _, _, _, _, hoperands, -⟩ := operationOf_loadStr.1 ho
  cases hoperands

theorem LoadsInto.ofLine_comma (h : LoadsInto head dest) (more : List Char) {s : Statement} :
    Statement.ofLine (head ++ ',' :: more) = .ok s ↔ ∃ piece pieces text,
      commaPieces? .outside (codeOf more) = some (piece :: pieces)
        ∧ stringLiteral (Text.trim piece) = .ok text ∧ s = .operation (loadString dest text) := by
  obtain ⟨first, hfirst, hwhole, hne, hline⟩ := h.exists_register
  have hcode : beforeComment .outside (',' :: more) = ',' :: beforeComment .outside more := rfl
  rw [hline, operandsOf_of_ne_nil (hne _), hcode, Text.trimEnd_append_cons rfl,
    hwhole.commaPieces?_comma, ← codeOf]
  constructor
  · intro hok
    obtain ⟨o, ho, rfl⟩ := map_eq_ok hok
    cases hpieces : commaPieces? .outside (codeOf more) with
    | none =>
      rw [hpieces] at ho
      cases ho
    | some pieces =>
      have ho : operationOf (.plain .loadStr) ((first :: pieces).map Text.trim) = .ok o := by
        rw [hpieces] at ho
        exact ho
      obtain ⟨_, second, _, dest', text, hoperands, hdest, htext, rfl⟩ :=
        operationOf_loadStr.1 ho
      cases pieces with
      | nil => cases hoperands
      | cons piece pieces =>
        cases hoperands
        obtain rfl : dest = dest' := Except.ok.inj (hfirst.symm.trans hdest)
        exact ⟨piece, pieces, text, rfl, htext, rfl⟩
  · rintro ⟨piece, pieces, text, hpieces, htext, rfl⟩
    rw [hpieces]
    exact congrArg (Except.map Statement.operation)
      (operationOf_loadStr.2 ⟨_, _, _, dest, text, rfl, hfirst, htext, rfl⟩)

/-- What the lines say that load a string. -/
theorem LoadsInto.ofLine_eq_ok_iff (h : LoadsInto head dest)
    (htail : ∀ c ∈ tail.head?, startsComment c ∨ c = ',') {s : Statement} :
    Statement.ofLine (head ++ tail) = .ok s ↔ ∃ operand text, SecondOperand tail operand
      ∧ (IsLiteral operand text ∨ RunsOn operand text) ∧ s = .operation (loadString dest text) := by
  by_cases hcomma : ∃ more, tail = ',' :: more
  · obtain ⟨more, rfl⟩ := hcomma
    rw [h.ofLine_comma more]
    constructor
    · rintro ⟨piece, pieces, text, hpieces, htext, rfl⟩
      obtain ⟨hwhole, hsecond⟩ := operand_of_piece hpieces
      exact ⟨_, text, hsecond, stringLiteral_of_whole.1 ⟨hwhole, htext⟩, rfl⟩
    · rintro ⟨operand, text, hsecond, hread, rfl⟩
      obtain ⟨hwhole, htext⟩ := stringLiteral_of_whole.2 hread
      obtain ⟨inner, hquotes, -⟩ := stringLiteral_eq_ok_iff.1 htext
      obtain ⟨piece, pieces, hpieces, rfl⟩ := piece_of_operand hsecond hwhole hquotes
      exact ⟨piece, pieces, text, hpieces, htext, rfl⟩
  · refine iff_of_false (h.ofLine_ne_ok (fun c hc => ?_) s) ?_
    · refine (htail c hc).resolve_right ?_
      rintro rfl
      exact hcomma (List.head?_eq_some_iff.1 hc)
    · rintro ⟨operand, text, ⟨before, after, rest, htail, -⟩, -⟩
      exact hcomma ⟨_, htail⟩

def Progress.place (p : Progress) (op : Operation) (line : Nat) : Progress :=
  match p.current with
  | some d => { p with current := some (d.place op line) }
  | none => { p with top := p.top.place op line }

theorem Progress.statement_operation (filename : String) (p : Progress) (op : Operation)
    (line : Nat) : p.statement filename line (.operation op) = .ok (p.place op line) := by
  obtain ⟨top, functions, current⟩ := p
  cases current <;> rfl

theorem Progress.line_eq_ok_iff {filename : String} {p p' : Progress} {line : List Char}
    {n : Nat} : Progress.line filename p (line, n) = .ok p'
      ↔ ∃ s, Statement.ofLine line = .ok s ∧ p.statement filename n s = .ok p' := by
  rw [Progress.line]
  cases Statement.ofLine line with
  | error fault =>
    constructor
    · intro h
      cases h
    · rintro ⟨s, hs, -⟩
      cases hs
  | ok s =>
    constructor
    · exact fun h => ⟨s, rfl, h⟩
    · rintro ⟨s', hs, h⟩
      cases hs
      exact h

/-- **Lines that load strings.**  Whatever is behind its register, such a line is accepted if and
only if a comma is there, then a string literal, and then nothing that is out of order; but instead
of one literal an operand that runs on is accepted as well.  The line becomes the instruction that
loads the symbol with the text of the operand.  Inside a literal the scans of the line are between
quotes all the way, so they end it where it ends. -/
theorem strings_read (h : LoadsInto head dest)
    (htail : ∀ c ∈ tail.head?, startsComment c ∨ c = ',') (filename : String) (p : Progress)
    (n : Nat) :
    (∀ p', Progress.line filename p (head ++ tail, n) = .ok p' ↔ ∃ operand text,
      SecondOperand tail operand ∧ (IsLiteral operand text ∨ RunsOn operand text)
        ∧ p' = p.place (loadString dest text) n)
    ∧ (∀ d text, ∃ new index,
      Draft.Grown d [{ opcode := .loadStr, dest, imm := Int32.ofNat index }] new
        (d.place (loadString dest text) n) ∧ (d.unit.symbols ++ new)[index]? = some text)
    ∧ ∀ operand text, IsLiteral operand text → Whole .outside operand
      ∧ ∀ k, 0 < k → k < operand.length → Quoting.outside.after (operand.take k) ≠ .outside := by
  refine ⟨fun p' => ?_, fun d text => ?_, fun operand text hliteral => ?_⟩
  · rw [Progress.line_eq_ok_iff]
    simp only [h.ofLine_eq_ok_iff htail]
    constructor
    · rintro ⟨s, ⟨operand, text, hsecond, hread, rfl⟩, hplaced⟩
      rw [Progress.statement_operation] at hplaced
      exact ⟨operand, text, hsecond, hread, (Except.ok.inj hplaced).symm⟩
    · rintro ⟨operand, text, hsecond, hread, rfl⟩
      exact ⟨_, ⟨operand, text, hsecond, hread, rfl⟩, p.statement_operation filename _ n⟩
  · obtain ⟨new, index, hgrown, hindex, -⟩ :=
      d.place_symbol { opcode := .loadStr, dest } text n
    exact ⟨new, index, hgrown, hindex⟩
  · exact ⟨hliteral.whole, fun k => hliteral.inside⟩

/-- A literal with a sign of comments and an escaped quote in it, and a comment with a quote. -/
theorem strings_read_comment :
    let head := "\tSTR  r7 ".toList
    let tail := ", \"a;\\\"\" # \"".toList
    LoadsInto head 7 ∧ Progress.line "a.nl" (.start "a.nl") (head ++ tail, 1)
      = .ok (Progress.place (.start "a.nl") (loadString 7 "a;\"") 1) := by
  intro head tail
  have hhead : LoadsInto head 7 :=
    ⟨['\t'], "STR".toList, [' ', ' '], "r7".toList, [' '], by decide,
      List.all_eq_true.1 (by decide), by decide, by decide, List.all_eq_true.1 (by decide),
      by decide, List.all_eq_true.1 (by decide)⟩
  have hsecond : SecondOperand tail "\"a;\\\"\"".toList :=
    ⟨[' '], [' '], "# \"".toList, by decide, List.all_eq_true.1 (by decide),
      List.all_eq_true.1 (by decide), .inl fun c hc => Option.some.inj hc ▸ rfl⟩
  have hliteral : IsLiteral "\"a;\\\"\"".toList "a;\"" :=
    ⟨"a;\\\"".toList, by decide,
      .bare (by decide) (.bare (by decide) (.escape (by decide) .nil))⟩
  have htail : ∀ c ∈ tail.head?, startsComment c ∨ c = ',' := fun c hc =>
    .inr (Option.some.inj hc).symm
  exact ⟨hhead, ((strings_read hhead htail "a.nl" (.start "a.nl") 1).1 _).2
    ⟨_, _, hsecond, .inl hliteral, rfl⟩⟩

/-- Two literals in a row are no literal, but they are taken for one, with two of their quotes in
the text. -/
theorem literal_runs_on :
    let head := "str r0".toList
    let tail := ", \"a\" \"b\"".toList
    Statement.ofLine (head ++ tail) = .ok (.operation (loadString 0 "a\" \"b"))
      ∧ LoadsInto head 0
      ∧ ¬ ∃ operand text, SecondOperand tail operand ∧ IsLiteral operand text := by
  intro head tail
  refine ⟨by decide +kernel, ?_, ?_⟩
  · exact ⟨[], "str".toList, [' '], "r0".toList, [], by decide, nofun, by decide, by decide,
      List.all_eq_true.1 (by decide), by decide, nofun⟩
  · rintro ⟨operand, text, hsecond, hliteral⟩
    obtain ⟨inner, hquotes, hinner⟩ := id hliteral
    obtain ⟨piece, pieces, hpieces, htrim⟩ := piece_of_operand hsecond hliteral.whole hquotes
    have hpiece : commaPieces? .outside (codeOf " \"a\" \"b\"".toList)
        = some [" \"a\" \"b\"".toList] := by decide
    obtain ⟨rfl, -⟩ := List.cons.inj (Option.some.inj (hpiece.symm.trans hpieces))
    -- the scan leaves the literal behind the second quote
    refine hliteral.inside (n := 3) (by decide) ?_ ?_
    · rw [← htrim]
      decide
    · rw [← htrim]
      decide

end ModuleHost.Assembly
