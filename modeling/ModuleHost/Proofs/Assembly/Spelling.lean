import ModuleHost.Proofs.Assembly.Outline
import ModuleHost.Proofs.Assembly.Sources
import ModuleHost.Proofs.Text.Delimited

/-!
# How instructions are spelled

Every instruction can be written on a line of its own: its mnemonic, then its operands behind
commas.  The texts of the operands hold no comment and no comma outside quotes, whatever characters
stand in a string literal (`Operand`), so the line is taken apart where it was put together and read
as the operation that it was written for (`Code.ofLine_line`).
-/

namespace ModuleHost.Assembly

/-! ### Text that stands in one piece -/

/-- A scan of quotes that starts at `q` finds its way out of the quotes, and on the way no comment
and no comma outside of them. -/
def Whole (q : Quoting) : List Char → Prop
  | [] => q = .outside
  | c :: cs => (q = .outside → startsComment c = false ∧ c ≠ ',') ∧ Whole (q.next c) cs

variable {q : Quoting} {c : Char} {cs ds : List Char}

theorem Whole.beforeComment_append (h : Whole q cs) (rest : List Char) :
    beforeComment q (cs ++ rest) = cs ++ beforeComment .outside rest := by
  induction cs generalizing q with
  | nil =>
    obtain rfl : q = .outside := h
    rfl
  | cons c cs ih =>
    have hsign : ¬ (q = .outside ∧ startsComment c = true) := fun hc => by
      rw [(h.1 hc.1).1] at hc
      exact Bool.false_ne_true hc.2
    rw [List.cons_append, beforeComment, if_neg hsign, ih h.2, List.cons_append]

theorem Whole.uncommented (h : Whole .outside cs) : beforeComment .outside cs = cs := by
  have happend := h.beforeComment_append []
  rw [List.append_nil] at happend
  exact happend.trans (List.append_nil cs)

theorem Whole.commaPieces?_append (h : Whole q cs) {rest piece : List Char}
    {pieces : List (List Char)} (hrest : commaPieces? .outside rest = some (piece :: pieces)) :
    commaPieces? q (cs ++ rest) = some ((cs ++ piece) :: pieces) := by
  induction cs generalizing q with
  | nil =>
    obtain rfl : q = .outside := h
    exact hrest
  | cons c cs ih =>
    have hcomma : ¬ (q = .outside ∧ c = ',') := fun hc => (h.1 hc.1).2 hc.2
    rw [List.cons_append, commaPieces?, if_neg hcomma, ih h.2]
    rfl

def isWordChar (c : Char) : Bool := c.isAlphanum || c = '_' || c = '?' || c = '!' || c = '$' || c = '-'

theorem ne_of_isWordChar (h : isWordChar c = true) {d : Char} (hd : isWordChar d = false) : c ≠ d := by
  rintro rfl
  rw [h] at hd
  cases hd

theorem isBlank_of_isWordChar (h : isWordChar c = true) : Text.isBlank c = false := by
  have hbounds : ∀ low high : Char, 33 ≤ low.toNat → high.toNat ≤ 122 →
      low.val ≤ c.val ∧ c.val ≤ high.val → 33 ≤ c.toNat ∧ c.toNat ≤ 122 :=
    fun low high hlow hhigh hc => ⟨Nat.le_trans hlow (UInt32.le_iff_toNat_le.1 hc.1),
      Nat.le_trans (UInt32.le_iff_toNat_le.1 hc.2) hhigh⟩
  have hrange : 33 ≤ c.toNat ∧ c.toNat ≤ 122 := by
    simp only [isWordChar, Bool.or_eq_true, decide_eq_true_eq] at h
    rcases h with ((((h | rfl) | rfl) | rfl) | rfl) | rfl
    · rcases Bool.or_eq_true_iff.1 h with h | h
      · rcases Bool.or_eq_true_iff.1 h with h | h
        · exact hbounds 'A' 'Z' (by decide) (by decide) (of_decide_eq_true h)
        · obtain ⟨hlow, hhigh⟩ := Bool.and_eq_true_iff.1 h
          exact hbounds 'a' 'z' (by decide) (by decide)
            ⟨of_decide_eq_true hlow, of_decide_eq_true hhigh⟩
      · exact hbounds '0' '9' (by decide) (by decide) (Char.isDigit_iff_toNat.1 h)
    all_goals decide
  by_contra hblank
  rw [Bool.not_eq_false] at hblank
  simp only [Text.isBlank, Bool.or_eq_true, Bool.and_eq_true, decide_eq_true_eq,
    beq_iff_eq] at hblank
  omega

theorem startsComment_of_isWordChar (h : isWordChar c = true) : startsComment c = false := by
  have hsemicolon := ne_of_isWordChar h (d := ';') rfl
  have hhash := ne_of_isWordChar h (d := '#') rfl
  rw [startsComment, decide_eq_false hsemicolon, decide_eq_false hhash]
  rfl

theorem whole_word (h : ∀ c ∈ cs, isWordChar c = true) : Whole .outside cs := by
  induction cs with
  | nil => rfl
  | cons c cs ih =>
    have hc := h c List.mem_cons_self
    refine ⟨fun _ => ⟨startsComment_of_isWordChar hc, ne_of_isWordChar hc rfl⟩, ?_⟩
    rw [Quoting.next, if_neg (ne_of_isWordChar hc rfl)]
    exact ih fun d hd => h d (List.mem_cons_of_mem c hd)

/-- A text that fills a line of its own and stands for itself there. -/
structure Tidy (cs : List Char) : Prop where
  uncommented : beforeComment .outside cs = cs
  head : ∃ c ∈ cs.head?, Text.isBlank c = false
  last : ∃ c ∈ cs.getLast?, Text.isBlank c = false ∧ c ≠ ':'
  oneLine : '\n' ∉ cs

structure Operand (cs : List Char) : Prop extends Tidy cs where
  whole : Whole .outside cs

theorem operand_word (hne : cs ≠ []) (h : ∀ c ∈ cs, isWordChar c = true) : Operand cs where
  whole := whole_word h
  uncommented := (whole_word h).uncommented
  head := ⟨cs.head hne, List.head?_eq_some_head hne, isBlank_of_isWordChar (h _ (List.head_mem hne))⟩
  last := ⟨cs.getLast hne, List.getLast?_eq_some_getLast hne,
    isBlank_of_isWordChar (h _ (List.getLast_mem hne)),
    ne_of_isWordChar (h _ (List.getLast_mem hne)) rfl⟩
  oneLine hmem := ne_of_isWordChar (h _ hmem) (d := '\n') rfl rfl

theorem Tidy.ne_nil (h : Tidy cs) : cs ≠ [] := by
  rintro rfl
  obtain ⟨c, hc, -⟩ := h.head
  cases hc

theorem Tidy.trim_eq (h : Tidy cs) : Text.trim cs = cs := by
  obtain ⟨c, hc, hfirst⟩ := h.head
  obtain ⟨d, hd, hlast, -⟩ := h.last
  refine Text.trim_eq_self (fun c' hc' => ?_) fun d' hd' => ?_
  · rw [Option.mem_unique hc' hc]
    exact hfirst
  · rw [Option.mem_unique hd' hd]
    exact hlast

/-- An operand, something that the scan for comments passes by, and more text. -/
theorem Operand.before (h : Operand cs) {between : List Char}
    (hbetween : beforeComment .outside (between ++ ds) = between ++ ds) (hnl : '\n' ∉ between)
    (hd : Tidy ds) : Tidy (cs ++ (between ++ ds)) where
  uncommented := by rw [h.whole.beforeComment_append, hbetween]
  head := by
    rw [List.head?_append_of_ne_nil cs h.ne_nil]
    exact h.head
  last := by
    rw [← List.append_assoc, List.getLast?_append_of_ne_nil _ hd.ne_nil]
    exact hd.last
  oneLine hmem := by
    rcases List.mem_append.1 hmem with hmem | hmem
    · exact h.oneLine hmem
    · rcases List.mem_append.1 hmem with hmem | hmem
      · exact hnl hmem
      · exact hd.oneLine hmem

/-! ### Lines -/

def joined (operands : List (List Char)) : List Char := List.intercalate [',', ' '] operands

def spell (word : List Char) (operands : List (List Char)) : List Char :=
  if operands = [] then word else word ++ ([' '] ++ joined operands)

theorem joined_cons_cons (x y : List Char) (rest : List (List Char)) :
    joined (x :: y :: rest) = x ++ ([',', ' '] ++ joined (y :: rest)) := by
  rw [joined, List.intercalate_cons_cons, List.append_assoc]
  rfl

theorem joined_singleton (x : List Char) : joined [x] = x := List.intercalate_singleton

theorem tidy_joined {x : List Char} {rest : List (List Char)} (h : ∀ cs ∈ x :: rest, Operand cs) :
    Tidy (joined (x :: rest)) := by
  induction rest generalizing x with
  | nil =>
    rw [joined_singleton]
    exact (h x List.mem_cons_self).toTidy
  | cons y rest ih =>
    have hrest := ih fun cs hcs => h cs (List.mem_cons_of_mem x hcs)
    rw [joined_cons_cons]
    refine (h x List.mem_cons_self).before ?_ (by decide) hrest
    exact congrArg ([',', ' '] ++ ·) hrest.uncommented

theorem commaPieces?_joined {x : List Char} {rest : List (List Char)}
    (h : ∀ cs ∈ x :: rest, Operand cs) :
    commaPieces? .outside (joined (x :: rest)) = some (x :: rest.map (' ' :: ·)) := by
  induction rest generalizing x with
  | nil =>
    have hpieces : commaPieces? .outside (x ++ []) = some [x ++ []] :=
      (h x List.mem_cons_self).whole.commaPieces?_append rfl
    rw [List.append_nil] at hpieces
    rw [joined_singleton]
    exact hpieces
  | cons y rest ih =>
    have hrest := ih fun cs hcs => h cs (List.mem_cons_of_mem x hcs)
    have hspace : commaPieces? .outside (' ' :: joined (y :: rest))
        = some ((' ' :: y) :: rest.map (' ' :: ·)) := by
      show (commaPieces? .outside (joined (y :: rest))).map _ = _
      rw [hrest]
      rfl
    have hcomma : commaPieces? .outside ([',', ' '] ++ joined (y :: rest))
        = some ([] :: (' ' :: y) :: rest.map (' ' :: ·)) := by
      show (commaPieces? .outside (' ' :: joined (y :: rest))).map ([] :: ·) = _
      rw [hspace]
      rfl
    rw [joined_cons_cons, (h x List.mem_cons_self).whole.commaPieces?_append hcomma,
      List.append_nil]
    rfl

/-- A row of operands is taken apart where it was put together. -/
theorem operandsOf_joined {operands : List (List Char)} (h : ∀ cs ∈ operands, Operand cs) :
    operandsOf (joined operands) = .ok operands := by
  cases operands with
  | nil => rfl
  | cons x rest =>
    have htrim : (x :: rest.map (' ' :: ·)).map Text.trim = x :: rest := by
      rw [List.map_cons, List.map_map, (h x List.mem_cons_self).trim_eq]
      refine congrArg (x :: ·) ((List.map_congr_left fun cs hcs => ?_).trans (List.map_id rest))
      exact (h cs (List.mem_cons_of_mem x hcs)).trim_eq
    have hne : (joined (x :: rest)).isEmpty = false :=
      List.isEmpty_eq_false_iff.2 (tidy_joined h).ne_nil
    rw [operandsOf, hne, if_neg Bool.false_ne_true, commaPieces?_joined h]
    exact congrArg Except.ok htrim

theorem tidy_spell {word : List Char} {operands : List (List Char)} (hword : Operand word)
    (h : ∀ cs ∈ operands, Operand cs) : Tidy (spell word operands) := by
  cases operands with
  | nil => exact hword.toTidy
  | cons x rest =>
    have hjoined := tidy_joined h
    rw [spell, if_neg (List.cons_ne_nil x rest)]
    refine hword.before ?_ (by decide) hjoined
    exact congrArg ([' '] ++ ·) hjoined.uncommented

theorem cutAtBlank_spell {word : List Char} {operands : List (List Char)}
    (hword : ∀ c ∈ word, Text.isBlank c = false) :
    Text.cutAtBlank (spell word operands) = (word, joined operands) := by
  have hkeep : ∀ c ∈ word, (!Text.isBlank c) = true := fun c hc => by rw [hword c hc]; rfl
  cases operands with
  | nil =>
    show Text.cutAtBlank word = (word, [])
    rw [← List.append_nil word, Text.cutAtBlank, List.takeWhile_append_of_pos hkeep,
      List.dropWhile_append_of_pos hkeep]
    rfl
  | cons x rest =>
    rw [spell, if_neg (List.cons_ne_nil x rest), Text.cutAtBlank,
      List.takeWhile_append_of_pos hkeep, List.dropWhile_append_of_pos hkeep]
    exact congrArg (·, joined (x :: rest)) (List.append_nil word)

/-- A word and operands on a line are read as the operation that they spell. -/
theorem ofLine_spell {word : List Char} {operands : List (List Char)} {m : Mnemonic}
    {o : Operation} (hne : word ≠ []) (hword : ∀ c ∈ word, isWordChar c = true)
    (hm : Mnemonic.ofWord? word = some m) (h : ∀ cs ∈ operands, Operand cs)
    (ho : operationOf m operands = .ok o) :
    Statement.ofLine (spell word operands) = .ok (.operation o) := by
  have htidy := tidy_spell (operand_word hne hword) h
  have htrim : Text.trim (joined operands) = joined operands := by
    cases operands with
    | nil => rfl
    | cons x rest => exact (tidy_joined h).trim_eq
  have hoperation : operationOfLine (spell word operands) = .ok o := by
    rw [operationOfLine, cutAtBlank_spell fun c hc => isBlank_of_isWordChar (hword c hc)]
    dsimp only
    rw [htrim, operandsOf_joined h, hm]
    exact ho
  have hlabel : labelOfLine? (spell word operands) = none := by
    obtain ⟨c, hc, -, hcolon⟩ := htidy.last
    refine if_neg fun hlast => hcolon ?_
    exact Option.mem_unique hc hlast.1
  rw [Statement.ofLine, htidy.uncommented, htidy.trim_eq]
  obtain ⟨first, rest, hline, hdot⟩ : ∃ first rest, spell word operands = first :: rest
      ∧ first ≠ '.' := by
    obtain ⟨first, tail, rfl⟩ := List.exists_cons_of_ne_nil hne
    have hdot := ne_of_isWordChar (hword first List.mem_cons_self) (d := '.') rfl
    unfold spell
    split
    · exact ⟨first, tail, rfl, hdot⟩
    · exact ⟨first, _, rfl, hdot⟩
  rw [hline] at hlabel hoperation ⊢
  exact Statement.ofTrimmed_operation hdot hlabel hoperation

/-! ### Operands -/

structure Name where
  text : String
  valid : isName text.toList = true
deriving DecidableEq

abbrev Register := Fin registerCount

namespace Register

def text (r : Register) : List Char := 'r' :: Nat.toDigits 10 r.val

def number (r : Register) : UInt8 := UInt8.ofNat r.val

theorem register_text : ∀ r : Register, register r.text = .ok r.number := by decide

theorem operand (r : Register) : Operand r.text :=
  operand_word (List.cons_ne_nil _ _) (List.all_eq_true.1 (by revert r; decide))

end Register

theorem Name.name_text (n : Name) : name n.text.toList = .ok n.text := by
  rw [name_eq_ok n.valid, String.ofList_toList]

theorem isWordChar_of_startsName (h : startsName c = true) : isWordChar c = true := by
  simp only [startsName, isWordChar, Char.isAlphanum, Bool.or_eq_true, decide_eq_true_eq] at h ⊢
  tauto

theorem isWordChar_of_continuesName (h : continuesName c = true) : isWordChar c = true := by
  simp only [continuesName, isWordChar, Bool.or_eq_true, decide_eq_true_eq] at h ⊢
  tauto

/-- A name has a first character and consists of the characters of words. -/
theorem word_of_isName (h : isName cs = true) : cs ≠ [] ∧ ∀ c ∈ cs, isWordChar c = true := by
  cases cs with
  | nil => cases h
  | cons c cs =>
    rw [isName, Bool.and_eq_true, List.all_eq_true] at h
    refine ⟨List.cons_ne_nil c cs, fun d hd => ?_⟩
    rcases List.mem_cons.1 hd with rfl | hd
    · exact isWordChar_of_startsName h.1
    · exact isWordChar_of_continuesName (h.2 d hd)

theorem Name.operand (n : Name) : Operand n.text.toList :=
  operand_word (word_of_isName n.valid).1 (word_of_isName n.valid).2

def decimal : Int → List Char
  | .ofNat n => Nat.toDigits 10 n
  | .negSucc n => '-' :: Nat.toDigits 10 (n + 1)

theorem isWordChar_of_isDigit (h : c.isDigit = true) : isWordChar c = true := by
  simp only [isWordChar, Char.isAlphanum, h, Bool.or_true, Bool.true_or]

theorem operand_digits (n : Nat) : Operand (Nat.toDigits 10 n) :=
  operand_word Nat.toDigits_ne_nil fun _ h =>
    isWordChar_of_isDigit (Text.isDigit_of_mem_toDigits h)

theorem operand_decimal (n : Int) : Operand (decimal n) := by
  cases n with
  | ofNat n => exact operand_digits n
  | negSucc n =>
    refine operand_word (List.cons_ne_nil _ _) fun c hc => ?_
    rcases List.mem_cons.1 hc with rfl | hc
    · rfl
    · exact isWordChar_of_isDigit (Text.isDigit_of_mem_toDigits hc)

theorem digitValue?_of_isDigit (h : c.isDigit = true) :
    Text.digitValue? 10 c = some (c.toNat - '0'.toNat) := by
  obtain ⟨hlow, hhigh⟩ := Char.isDigit_iff_toNat.1 h
  have hrange : '0' ≤ c ∧ c ≤ '9' := ⟨hlow, hhigh⟩
  have hlt : c.toNat - '0'.toNat < 10 := by
    have hnine : '9'.toNat = '0'.toNat + 9 := rfl
    omega
  rw [Text.digitValue?, if_pos hrange]
  exact Option.filter_eq_some_iff.2 ⟨rfl, decide_eq_true hlt⟩

theorem appendDigits?_eq (h : ∀ c ∈ cs, c.isDigit = true) (n : Nat) :
    Text.appendDigits? 10 n cs = some (Nat.ofDigitChars 10 cs n) := by
  induction cs generalizing n with
  | nil => rfl
  | cons c cs ih =>
    rw [Text.appendDigits?, digitValue?_of_isDigit (h c List.mem_cons_self),
      Nat.ofDigitChars_cons, Nat.mul_comm]
    exact ih (fun d hd => h d (List.mem_cons_of_mem c hd)) _

theorem digits?_toDigits (n : Nat) : Text.digits? 10 (Nat.toDigits 10 n) = some n := by
  have hne : (Nat.toDigits 10 n).isEmpty = false := List.isEmpty_eq_false_iff.2 Nat.toDigits_ne_nil
  rw [Text.digits?, hne, if_neg Bool.false_ne_true,
    appendDigits?_eq fun _ h => Text.isDigit_of_mem_toDigits h,
    Nat.ofDigitChars_toDigits (by decide) (by decide)]

theorem signed?_toDigits (n : Nat) : Text.signed? 10 (Nat.toDigits 10 n) = some (n : Int) := by
  have hsign : ∀ c, c.isDigit = false → ∀ rest, Nat.toDigits 10 n = c :: rest → False := by
    intro c hc rest heq
    have hmem : c ∈ Nat.toDigits 10 n := heq ▸ List.mem_cons_self
    have hdigit := Text.isDigit_of_mem_toDigits hmem
    rw [hc] at hdigit
    cases hdigit
  unfold Text.signed?
  split
  · next heq => exact (hsign '-' rfl _ heq).elim
  · unfold Text.unsigned?
    split
    · next heq => exact (hsign '+' rfl _ heq).elim
    · rw [digits?_toDigits]
      rfl

theorem number?_toDigits (n : Nat) : number? (Nat.toDigits 10 n) = some (n : Int) := by
  unfold number?
  split
  · next digits heq =>
    have hx : 'x' ∈ Nat.toDigits 10 n := heq ▸ List.mem_cons_of_mem '0' List.mem_cons_self
    exact absurd (Text.isDigit_of_mem_toDigits hx) (by decide)
  · exact signed?_toDigits n

theorem immediateValue?_decimal (n : Int) : immediateValue? (decimal n) = some n := by
  cases n with
  | ofNat n =>
    show immediateValue? (Nat.toDigits 10 n) = _
    unfold immediateValue?
    split
    · next rest heq =>
      have hminus : '-' ∈ Nat.toDigits 10 n := heq ▸ List.mem_cons_self
      exact absurd (Text.isDigit_of_mem_toDigits hminus) (by decide)
    · exact number?_toDigits n
  | negSucc n =>
    show (number? (Nat.toDigits 10 (n + 1))).map (- ·) = _
    rw [number?_toDigits]
    rfl

theorem immediate_decimal (i : Int32) : immediate (decimal i.toInt) = .ok i := by
  have hrange : Int32.minValue.toInt ≤ i.toInt ∧ i.toInt ≤ Int32.maxValue.toInt :=
    ⟨i.minValue_le_toInt, i.toInt_le⟩
  rw [immediate, immediateValue?_decimal]
  dsimp only
  rw [if_pos hrange, Int32.ofInt_toInt]

def escapeChar (c : Char) : List Char :=
  if c = '\\' then ['\\', '\\'] else if c = '"' then ['\\', '"']
  else if c = '\n' then ['\\', 'n'] else [c]

def quoted (cs : List Char) : List Char := '"' :: (cs.flatMap escapeChar ++ ['"'])

theorem unescape_escapeChar (c : Char) (cs : List Char) :
    unescape (escapeChar c ++ cs) = (unescape cs).map (c :: ·) := by
  unfold escapeChar
  split
  · next h =>
    subst h
    rfl
  split
  · next h =>
    subst h
    rfl
  split
  · next h =>
    subst h
    rfl
  · next hbackslash _ _ =>
    rw [List.singleton_append, unescape]
    · exact fun hc _ => hbackslash hc
    · exact fun _ _ hc _ => hbackslash hc

theorem unescape_escaped (cs : List Char) : unescape (cs.flatMap escapeChar) = .ok cs := by
  induction cs with
  | nil => rfl
  | cons c cs ih =>
    rw [List.flatMap_cons, unescape_escapeChar, ih]
    rfl

theorem stringLiteral_quoted (text : String) : stringLiteral (quoted text.toList) = .ok text := by
  have hbetween : betweenQuotes? (quoted text.toList) = some (text.toList.flatMap escapeChar) := by
    rw [quoted, betweenQuotes?, List.getLast?_concat, if_pos rfl, List.dropLast_concat]
  rw [stringLiteral, hbetween]
  dsimp only
  rw [unescape_escaped]
  exact congrArg Except.ok String.ofList_toList

theorem whole_escapeChar (c : Char) (h : Whole .inside cs) : Whole .inside (escapeChar c ++ cs) := by
  unfold escapeChar
  split
  · exact ⟨nofun, nofun, h⟩
  split
  · exact ⟨nofun, nofun, h⟩
  split
  · exact ⟨nofun, nofun, h⟩
  · next hbackslash hquote _ =>
    refine ⟨nofun, ?_⟩
    rw [Quoting.next, if_neg hbackslash, if_neg hquote]
    exact h

theorem whole_quoted (cs : List Char) : Whole .outside (quoted cs) := by
  refine ⟨fun _ => ⟨rfl, by decide⟩, ?_⟩
  show Whole .inside (cs.flatMap escapeChar ++ ['"'])
  induction cs with
  | nil => exact ⟨nofun, rfl⟩
  | cons c cs ih =>
    rw [List.flatMap_cons, List.append_assoc]
    exact whole_escapeChar c ih

theorem newline_escapeChar (c : Char) : '\n' ∉ escapeChar c := by
  unfold escapeChar
  split
  · decide
  split
  · decide
  split
  · decide
  · next hnewline => exact fun hmem => hnewline (List.mem_singleton.1 hmem).symm

theorem operand_quoted (cs : List Char) : Operand (quoted cs) where
  whole := whole_quoted cs
  uncommented := (whole_quoted cs).uncommented
  head := ⟨'"', rfl, by decide⟩
  last := by
    refine ⟨'"', ?_, by decide, by decide⟩
    rw [quoted, ← List.cons_append]
    exact List.getLast?_concat
  oneLine hmem := by
    rcases List.mem_cons.1 hmem with hquote | hmem
    · exact absurd hquote (by decide)
    rcases List.mem_append.1 hmem with hmem | hquote
    · obtain ⟨c, -, hc⟩ := List.mem_flatMap.1 hmem
      exact newline_escapeChar c hc
    · exact absurd hquote (by decide)

/-! ### Instructions -/

/-- The arguments of a call: none, one register, or as many registers as a number says. -/
inductive Window where
  | none
  | one (first : Register)
  | many (first : Register) (count : Nat) (fits : first.val + count ≤ registerCount)
deriving DecidableEq

namespace Window

def operands : Window → List (List Char)
  | none => []
  | one first => [first.text]
  | many first count _ => [first.text, Nat.toDigits 10 count]

def first : Window → UInt8
  | none => 0
  | one first | many first _ _ => first.number

def count : Window → UInt8
  | none => 0
  | one _ => 1
  | many _ count _ => UInt8.ofNat count

end Window

inductive Code where
  | nop
  | halt
  | mov (dest src : Register)
  | loadInt (dest : Register) (value : Int32)
  | loadNil (dest : Register)
  | loadSelf (dest : Register)
  | loadBool (dest : Register) (value : Bool)
  | loadStr (dest : Register) (text : String)
  | arith (op : ArithOp) (dest left right : Register)
  | getGlobal (dest : Register) (global : Name)
  | setGlobal (global : Name) (src : Register)
  | call (dest : Register) (function : Name) (window : Window)
  | jump (label : Name)
  | jumpIf (src : Register) (label : Name)
  | jumpUnless (src : Register) (label : Name)
  | raise (src : Register)
  /-- Returns a register, the first one if none is given. -/
  | ret (src : Option Register)
deriving DecidableEq

namespace Code

def mnemonic : Code → Mnemonic
  | nop => .plain .nop
  | halt => .plain .halt
  | mov .. => .plain .mov
  | loadInt .. => .plain .loadInt
  | loadNil .. => .plain .loadNil
  | loadSelf .. => .plain .loadSelf
  | loadBool .. => .plain .loadBool
  | loadStr .. => .plain .loadStr
  | arith op .. => .arith op
  | getGlobal .. => .plain .getGlobal
  | setGlobal .. => .plain .setGlobal
  | call .. => .plain .call
  | jump .. => .plain .jump
  | jumpIf .. => .plain .jumpIf
  | jumpUnless .. => .plain .jumpUnless
  | raise .. => .plain .raise
  | ret .. => .plain .ret

def operands : Code → List (List Char)
  | nop | halt => []
  | mov dest src => [dest.text, src.text]
  | loadInt dest value => [dest.text, decimal value.toInt]
  | loadNil dest | loadSelf dest => [dest.text]
  | loadBool dest value => [dest.text, (if value then "true" else "false").toList]
  | loadStr dest text => [dest.text, quoted text.toList]
  | arith _ dest left right => [dest.text, left.text, right.text]
  | getGlobal dest global => [dest.text, global.text.toList]
  | setGlobal global src => [global.text.toList, src.text]
  | call dest function window => dest.text :: function.text.toList :: window.operands
  | jump label => [label.text.toList]
  | jumpIf src label | jumpUnless src label => [src.text, label.text.toList]
  | raise src => [src.text]
  | ret src => (src.map Register.text).toList

def line (c : Code) : List Char := spell c.mnemonic.text.toList c.operands

/-- The instruction, with what its immediate refers to. -/
def operation : Code → Operation
  | nop => { instruction := { opcode := .nop } }
  | halt => { instruction := { opcode := .halt } }
  | mov dest src => { instruction := { opcode := .mov, dest := dest.number, src1 := src.number } }
  | loadInt dest value =>
    { instruction := { opcode := .loadInt, dest := dest.number, imm := value } }
  | loadNil dest => { instruction := { opcode := .loadNil, dest := dest.number } }
  | loadSelf dest => { instruction := { opcode := .loadSelf, dest := dest.number } }
  | loadBool dest value =>
    { instruction := { opcode := .loadBool, dest := dest.number, imm := if value then 1 else 0 } }
  | loadStr dest text =>
    { instruction := { opcode := .loadStr, dest := dest.number }, reference := .symbol text }
  | arith op dest left right =>
    { instruction := {
        opcode := .arith, dest := dest.number, src1 := left.number, src2 := right.number
        mode := op.code } }
  | getGlobal dest global =>
    { instruction := { opcode := .getGlobal, dest := dest.number }
      reference := .symbol global.text }
  | setGlobal global src =>
    { instruction := { opcode := .setGlobal, src1 := src.number }
      reference := .symbol global.text }
  | call dest function window =>
    { instruction := {
        opcode := .call, dest := dest.number, src1 := window.first, mode := window.count }
      reference := .symbol function.text }
  | jump label => { instruction := { opcode := .jump }, reference := .label label.text }
  | jumpIf src label =>
    { instruction := { opcode := .jumpIf, src1 := src.number }, reference := .label label.text }
  | jumpUnless src label =>
    { instruction := { opcode := .jumpUnless, src1 := src.number }, reference := .label label.text }
  | raise src => { instruction := { opcode := .raise, src1 := src.number } }
  | ret src => { instruction := { opcode := .ret, src1 := (src.map Register.number).getD 0 } }

end Code

theorem argumentCount_toDigits {n : Nat} (h : n ≤ registerCount) :
    argumentCount (Nat.toDigits 10 n) = .ok (UInt8.ofNat n) := by
  have hall : ∀ k : Fin (registerCount + 1),
      argumentCount (Nat.toDigits 10 k.val) = .ok (UInt8.ofNat k.val) := by decide
  exact hall ⟨n, Nat.lt_succ_of_le h⟩

theorem toNat_number (r : Register) : r.number.toNat = r.val := by
  revert r
  decide

theorem operandAt_zero (x : List Char) (operands : List (List Char)) :
    operandAt (x :: operands) 0 = .ok x := rfl

theorem operandAt_succ (x : List Char) (operands : List (List Char)) (k : Nat) :
    operandAt (x :: operands) (k + 1) = operandAt operands k := rfl

theorem ok_bind {α β : Type} (a : α) (f : α → Except Fault β) : (Except.ok a >>= f) = f a := rfl

/-- All arguments are registers that exist. -/
theorem Window.first_add_count_le (window : Window) :
    window.first.toNat + window.count.toNat ≤ registerCount := by
  cases window with
  | none => decide
  | one first =>
    rw [Window.first, toNat_number]
    exact first.isLt
  | many first count fits =>
    have hcount : count ≤ registerCount := Nat.le_trans (Nat.le_add_left _ _) fits
    rw [Window.first, toNat_number, Window.count,
      UInt8.toNat_ofNat_of_lt' (Nat.lt_of_le_of_lt hcount (by decide))]
    exact fits

theorem callOperation_operands (dest : Register) (function : Name) (window : Window) :
    callOperation (dest.text :: function.text.toList :: window.operands)
      = .ok (Code.call dest function window).operation := by
  have hfits := Nat.not_lt.2 window.first_add_count_le
  unfold callOperation
  simp only [operandAt_zero, operandAt_succ, Register.register_text, Name.name_text, ok_bind]
  cases window with
  | none => rfl
  | one first =>
    simp only [Window.operands, List.getElem?_cons_succ, List.getElem?_cons_zero, Option.mapM_some,
      Register.register_text]
    exact (if_neg hfits).trans rfl
  | many first count fits =>
    have hcount : count ≤ registerCount := Nat.le_trans (Nat.le_add_left _ _) fits
    simp only [Window.operands, List.getElem?_cons_succ, List.getElem?_cons_zero, Option.mapM_some,
      Register.register_text, argumentCount_toDigits hcount]
    exact (if_neg hfits).trans rfl

/-- The operands of an instruction are read as they were written. -/
theorem operationOf_operands (c : Code) : operationOf c.mnemonic c.operands = .ok c.operation := by
  cases c with
  | nop | halt => rfl
  | call dest function window => exact callOperation_operands dest function window
  | loadBool dest value =>
    cases value <;>
    simp only [Code.mnemonic, Code.operands, operationOf, operandAt_zero, operandAt_succ,
      Register.register_text, ok_bind] <;> rfl
  | ret src =>
    cases src with
    | none => rfl
    | some r =>
      simp only [Code.mnemonic, Code.operands, operationOf, Option.map_some, Option.toList_some,
        List.head?_cons, Register.register_text, ok_bind]
      rfl
  | _ =>
    simp only [Code.mnemonic, Code.operands, operationOf, operandAt_zero, operandAt_succ,
      Register.register_text, Name.name_text, immediate_decimal, stringLiteral_quoted, ok_bind]
    rfl

theorem Code.operand_of_mem (c : Code) : ∀ cs ∈ c.operands, Operand cs := by
  cases c with
  | call dest function window =>
    cases window <;>
      simp [Code.operands, Window.operands, Register.operand, Name.operand, operand_digits]
  | loadBool dest value =>
    have htext : Operand (if value then "true" else "false").toList := by
      cases value <;> exact operand_word (by decide) (List.all_eq_true.1 (by decide))
    simp [Code.operands, Register.operand, htext]
  | ret src => cases src <;> simp [Code.operands, Register.operand]
  | _ =>
    simp [Code.operands, Register.operand, Name.operand, operand_decimal, operand_quoted]

/-- Mnemonics are words that stand for themselves. -/
theorem Mnemonic.ofWord?_text : ∀ m ∈ Mnemonic.all, m.text.toList ≠ []
    ∧ m.text.toList.all isWordChar = true ∧ ofWord? m.text.toList = some m := by
  decide

theorem Code.mnemonic_mem (c : Code) : c.mnemonic ∈ Mnemonic.all := by
  cases c with
  | arith op => cases op <;> simp only [mnemonic] <;> decide
  | _ =>
    simp only [mnemonic]
    decide

/-- The line of an instruction is read as that instruction. -/
theorem Code.ofLine_line (c : Code) : Statement.ofLine c.line = .ok (.operation c.operation) := by
  obtain ⟨hne, hword, hm⟩ := Mnemonic.ofWord?_text c.mnemonic c.mnemonic_mem
  exact ofLine_spell hne (List.all_eq_true.1 hword) hm c.operand_of_mem (operationOf_operands c)

theorem Code.oneLine (c : Code) : '\n' ∉ c.line := by
  obtain ⟨hne, hword, -⟩ := Mnemonic.ofWord?_text c.mnemonic c.mnemonic_mem
  exact (tidy_spell (operand_word hne (List.all_eq_true.1 hword)) c.operand_of_mem).oneLine

/-! ### Labels and functions -/

namespace Name

def labelLine (n : Name) : List Char := n.text.toList ++ [':']

def startLine (n : Name) : List Char := ['.', 'd', 'e', 'f'] ++ ([' '] ++ n.text.toList)

theorem ofLine_labelLine (n : Name) : Statement.ofLine n.labelLine = .ok (.label n.text) := by
  have hname := n.operand
  obtain ⟨first, rest, hcs⟩ := List.exists_cons_of_ne_nil hname.ne_nil
  have hfirst : isWordChar first = true :=
    (word_of_isName n.valid).2 first (hcs ▸ List.mem_cons_self)
  have hcomment : beforeComment .outside n.labelLine = n.labelLine :=
    hname.whole.beforeComment_append [':']
  have htrim : Text.trim n.labelLine = n.labelLine := by
    refine Text.trim_eq_self ?_ ?_
    · rw [labelLine, hcs]
      rintro c ⟨⟩
      exact isBlank_of_isWordChar hfirst
    · rw [labelLine, List.getLast?_concat]
      rintro c ⟨⟩
      decide
  have hlabel : labelOfLine? n.labelLine = some n.text := by
    rw [labelOfLine?, labelLine, List.getLast?_concat, List.dropLast_concat,
      if_pos ⟨rfl, n.valid⟩, String.ofList_toList]
  rw [Statement.ofLine, hcomment, htrim]
  have hline : n.labelLine = first :: (rest ++ [':']) := by rw [labelLine, hcs, List.cons_append]
  rw [hline] at hlabel ⊢
  unfold Statement.ofTrimmed
  split
  · next heq => cases heq
  · next heq => exact absurd (List.cons.inj heq).1 (ne_of_isWordChar hfirst rfl)
  · rw [hlabel]

theorem ofLine_startLine (n : Name) :
    Statement.ofLine n.startLine = .ok (.functionStart (some n.text.toList)) := by
  have hname := n.operand
  have hcomment : beforeComment .outside n.startLine = n.startLine :=
    congrArg (['.', 'd', 'e', 'f', ' '] ++ ·) hname.uncommented
  have htrim : Text.trim n.startLine = n.startLine := by
    refine Text.trim_eq_self ?_ ?_
    · rintro c ⟨⟩
      decide
    · obtain ⟨c, hc, hblank, -⟩ := hname.last
      rw [startLine, ← List.append_assoc, List.getLast?_append_of_ne_nil _ hname.ne_nil]
      intro d hd
      rw [Option.mem_unique hd hc]
      exact hblank
  have hwords : Text.words (['d', 'e', 'f'] ++ ' ' :: n.text.toList)
      = [['d', 'e', 'f'], n.text.toList] := by
    have hblank : ∀ c ∈ n.text.toList, Text.isBlank c = false := fun c hc =>
      isBlank_of_isWordChar ((word_of_isName n.valid).2 c hc)
    have hdef : ∀ c ∈ ['d', 'e', 'f'], Text.isBlank c = false := fun c hc =>
      isBlank_of_isWordChar (List.all_eq_true.1 (by decide) c hc)
    rw [Text.words, List.splitOnP_append_cons _ _ (by decide),
      List.splitOnP_eq_singleton hdef, List.splitOnP_eq_singleton hblank]
    have hne : (!n.text.toList.isEmpty) = true := by
      rw [List.isEmpty_eq_false_iff.2 hname.ne_nil]
      rfl
    rw [List.singleton_append, List.filter_cons_of_pos rfl]
    exact congrArg (_ :: ·) (List.filter_cons_of_pos hne)
  have hline : n.startLine = '.' :: (['d', 'e', 'f'] ++ ' ' :: n.text.toList) := rfl
  rw [Statement.ofLine, hcomment, htrim, hline, Statement.ofTrimmed, hwords]
  rfl

end Name

def endLine : List Char := ['.', 'e', 'n', 'd']

theorem ofLine_endLine : Statement.ofLine endLine = .ok .functionEnd := by decide

end ModuleHost.Assembly
