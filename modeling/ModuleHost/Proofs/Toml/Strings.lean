import ModuleHost.Toml.Reader
import ModuleHost.Toml.Writer
import Mathlib.Logic.Basic

/-!
# Strings that have been written

A string is written in one of four forms, and each form is read back as the string
(`string?_writeString`).  The two forms with escapes are the same but for the quotes and the line
breaks, which need no escape between tripled quotes.  There the quotes that have been read without
knowing yet whether they close the string are kept in front of the text: what is read is followed by
induction on the text for any number of them up to two.
-/

namespace ModuleHost.Toml

variable {tripled : Bool} {c : Char} {cs rest tail : List Char} {run : Nat}

/-! ### Characters -/

/-- A character that is not escaped can stand in a line. -/
theorem isCommentChar_of_needsEscape (h : needsEscape c = false) (hbreak : c ≠ '\n') :
    isCommentChar c = true := by
  unfold needsEscape at h
  unfold isCommentChar isWide
  simp [Char.lt_def, Char.le_def, UInt32.lt_iff_toNat_lt, UInt32.le_iff_toNat_le,
    ← Char.toNat_inj] at h hbreak ⊢
  omega

theorem toNat_lt_of_needsEscape (h : needsEscape c = true) : c.toNat < 128 := by
  unfold needsEscape at h
  simp [Char.lt_def, UInt32.lt_iff_toNat_lt, ← Char.toNat_inj] at h
  omega

theorem codePoint?_fourDigits : ∀ n < 128, codePoint? (fourDigits n) = some (Char.ofNat n) := by
  decide

inductive Escaped (tripled : Bool) (c : Char) : List Char → Prop
  | escape {cs : List Char} (h : ∀ tail, escape? (cs ++ tail) = some (c, tail))
      (hb : ∀ tail, breaksLine (cs ++ tail) = false) : Escaped tripled c ('\\' :: cs)
  | plain (h : isBasicChar c = true) : Escaped tripled c [c]
  | lineBreak (ht : tripled = true) (hc : c = '\n') : Escaped tripled c ['\n']

theorem lineBreak?_cons (hfeed : c ≠ '\n') (hreturn : c ≠ '\r') (cs : List Char) :
    lineBreak? (c :: cs) = none := by
  unfold lineBreak?
  split
  · exact absurd ‹_› (by simp [hfeed])
  · exact absurd ‹_› (by simp [hreturn])
  · rfl

/-- A letter behind a backslash does not break the line. -/
theorem breaksLine_cons (hspace : isSpace c = false) (hfeed : c ≠ '\n') (hreturn : c ≠ '\r')
    (cs : List Char) : breaksLine (c :: cs) = false := by
  rw [breaksLine, skipSpaces, List.dropWhile_cons_of_neg (by rw [hspace]; decide),
    lineBreak?_cons hfeed hreturn]
  rfl

theorem escaped_letter {letter : Char} (h : ∀ tail, escape? (letter :: tail) = some (c, tail))
    (hspace : isSpace letter = false) (hfeed : letter ≠ '\n') (hreturn : letter ≠ '\r') :
    Escaped tripled c ['\\', letter] :=
  .escape h fun tail => breaksLine_cons hspace hfeed hreturn tail

theorem escaped_escapeChar (tripled : Bool) (hquote : c ≠ '"') :
    Escaped tripled c (escapeChar tripled c) := by
  unfold escapeChar
  split
  · exact escaped_letter (fun _ => rfl) rfl (by decide) (by decide)
  · exact escaped_letter (fun _ => rfl) rfl (by decide) (by decide)
  · split
    · exact .lineBreak ‹_› rfl
    · exact escaped_letter (fun _ => rfl) rfl (by decide) (by decide)
  · exact escaped_letter (fun _ => rfl) rfl (by decide) (by decide)
  · exact escaped_letter (fun _ => rfl) rfl (by decide) (by decide)
  · exact escaped_letter (fun _ => rfl) rfl (by decide) (by decide)
  next hbackspace htab hfeed hform hreturn hslash =>
  split
  · next hescape =>
    refine .escape (fun tail => ?_) fun tail => breaksLine_cons rfl (by decide) (by decide) _
    have hcode := codePoint?_fourDigits c.toNat (toNat_lt_of_needsEscape hescape)
    have hlength : (fourDigits c.toNat).length = 4 := rfl
    show escape? ('u' :: (fourDigits c.toNat ++ tail)) = some (c, tail)
    rw [escape?, if_neg, List.take_left' hlength, List.drop_left' hlength, hcode, Char.ofNat_toNat]
    · rfl
    · rw [List.length_append, hlength]
      omega
  · next hescape =>
    refine .plain ?_
    rw [isBasicChar, isCommentChar_of_needsEscape (by simpa using hescape) hfeed]
    simpa [hquote] using hslash

/-! ### Basic strings -/

theorem ne_of_isBasicChar {d : Char} (h : isBasicChar c = true) (hd : isBasicChar d = false) :
    c ≠ d := by
  rintro rfl
  rw [hd] at h
  cases h

theorem basicString?_escape (h : escape? cs = some (c, tail)) :
    basicString? ('\\' :: cs) = (basicString? tail).map fun r => (c :: r.1, r.2) := by
  rw [basicString?]
  split
  · next h' =>
    rw [h] at h'
    cases h'
    rfl
  · next h' =>
    rw [h] at h'
    cases h'

theorem basicString?_plain (h : isBasicChar c = true) (cs : List Char) :
    basicString? (c :: cs) = (basicString? cs).map fun r => (c :: r.1, r.2) := by
  rw [basicString?, if_pos h]
  · exact ne_of_isBasicChar h (by decide)
  · exact ne_of_isBasicChar h (by decide)

/-- A basic string is read as it was. -/
theorem basicString?_escapeAll (cs rest : List Char) (run : Nat) :
    basicString? (escapeAll false run cs ++ '"' :: rest) = some (cs, rest) := by
  induction cs generalizing run with
  | nil => rw [escapeAll, List.nil_append, basicString?]
  | cons c cs ih =>
    by_cases hquote : c = '"'
    · subst hquote
      rw [escapeAll, if_neg (by simp), List.cons_append, List.cons_append,
        basicString?_escape rfl, ih]
      rfl
    · have hescaped := escaped_escapeChar false hquote
      rw [escapeAll, List.append_assoc]
      · generalize escapeChar false c = written at hescaped
        cases hescaped with
        | escape h => rw [List.cons_append, basicString?_escape (h _), ih]; rfl
        | plain h => rw [List.singleton_append, basicString?_plain h, ih]; rfl
        | lineBreak ht => cases ht
      · exact hquote

/-! ### Quotes in a string -/

/-- The reader takes a quote as part of the string, if it does not begin the three that close it. -/
def KeepsQuotes (read? : List Char → Option (List Char × List Char)) (quote : Char) : Prop :=
  ∀ cs, (∀ rest, cs ≠ quote :: quote :: rest) →
    read? (quote :: cs) = (read? cs).map fun r => (quote :: r.1, r.2)

/-- Up to two quotes in front of something else belong to the string. -/
theorem KeepsQuotes.replicate {read? : List Char → Option (List Char × List Char)} {quote : Char}
    (h : KeepsQuotes read? quote) (hrun : run ≤ 2) (hc : c ≠ quote) (cs : List Char) :
    read? (List.replicate run quote ++ c :: cs)
      = (read? (c :: cs)).map fun r => (List.replicate run quote ++ r.1, r.2) := by
  have hone : read? (quote :: c :: cs) = (read? (c :: cs)).map fun r => (quote :: r.1, r.2) :=
    h _ fun rest heq => hc (List.cons.inj heq).1
  match run, hrun with
  | 0, _ => exact Option.map_id'.symm
  | 1, _ => exact hone
  | 2, _ =>
    show read? (quote :: quote :: c :: cs) = _
    rw [h _ fun rest heq => hc (List.cons.inj (List.cons.inj heq).2).1, hone, Option.map_map]
    rfl

/-! ### Basic strings between tripled quotes -/

theorem keepsQuotes_tripledBasicString? : KeepsQuotes (tripledBasicString? false) '"' := by
  intro cs h
  rw [tripledBasicString?]
  · exact fun rest => h _
  · exact fun rest => h _
  · exact h

theorem tripledBasicString?_escape (hb : breaksLine cs = false) (h : escape? cs = some (c, tail)) :
    tripledBasicString? false ('\\' :: cs)
      = (tripledBasicString? false tail).map fun r => (c :: r.1, r.2) := by
  rw [tripledBasicString?, if_neg (by rw [hb]; decide)]
  split
  · next h' =>
    rw [h] at h'
    cases h'
    rfl
  · next h' =>
    rw [h] at h'
    cases h'

theorem tripledBasicString?_plain (h : isBasicChar c = true) (cs : List Char) :
    tripledBasicString? false (c :: cs)
      = (tripledBasicString? false cs).map fun r => (c :: r.1, r.2) := by
  have hquote : c ≠ '"' := ne_of_isBasicChar h (by decide)
  rw [tripledBasicString?, Bool.false_and, if_neg (by decide), if_pos h]
  · exact fun _ hc _ => hquote hc
  · exact fun _ hc _ => hquote hc
  · exact fun _ hc _ => hquote hc
  · exact hquote
  · exact ne_of_isBasicChar h (by decide)
  · exact ne_of_isBasicChar h (by decide)
  · exact fun _ hc _ => ne_of_isBasicChar h (by decide) hc

/-- Up to two quotes stand in front of those that close the string. -/
theorem tripledBasicString?_close (hrun : run ≤ 2) (hrest : rest.head? ≠ some '"') :
    tripledBasicString? false (List.replicate run '"' ++ '"' :: '"' :: '"' :: rest)
      = some (List.replicate run '"', rest) := by
  have hhead : ∀ tail, rest ≠ '"' :: tail := by
    rintro tail rfl
    exact hrest rfl
  match run, hrun with
  | 0, _ =>
    show tripledBasicString? false ('"' :: '"' :: '"' :: rest) = _
    rw [tripledBasicString?]
    · rfl
    · exact fun _ => hhead _
    · exact hhead
  | 1, _ =>
    show tripledBasicString? false ('"' :: '"' :: '"' :: '"' :: rest) = _
    rw [tripledBasicString?]
    · rfl
    · exact hhead
  | 2, _ =>
    show tripledBasicString? false ('"' :: '"' :: '"' :: '"' :: '"' :: rest) = _
    rw [tripledBasicString?]
    rfl

/-- A basic string between tripled quotes is read as it was, with the quotes in front of it. -/
theorem tripledBasicString?_escapeAll (cs : List Char) (hrun : run ≤ 2)
    (hrest : rest.head? ≠ some '"') :
    tripledBasicString? false (List.replicate run '"' ++ (escapeAll true run cs
      ++ '"' :: '"' :: '"' :: rest)) = some (List.replicate run '"' ++ cs, rest) := by
  induction cs generalizing run with
  | nil =>
    rw [escapeAll, List.nil_append, tripledBasicString?_close hrun hrest, List.append_nil]
  | cons c cs ih =>
    have hbehind := ih (Nat.zero_le 2)
    rw [List.replicate_zero, List.nil_append, List.nil_append] at hbehind
    by_cases hquote : c = '"'
    · subst hquote
      rw [escapeAll, if_pos (Eq.refl true)]
      split
      · next hlt =>
        have h := ih hlt
        rw [List.replicate_succ', List.append_assoc, List.append_assoc] at h
        exact h
      · rw [List.cons_append, keepsQuotes_tripledBasicString?.replicate hrun (by decide),
          List.cons_append, tripledBasicString?_escape rfl rfl, hbehind]
        rfl
    · have hescaped := escaped_escapeChar true hquote
      rw [escapeAll, List.append_assoc]
      · generalize escapeChar true c = written at hescaped
        cases hescaped with
        | escape h hb =>
          rw [List.cons_append, keepsQuotes_tripledBasicString?.replicate hrun (by decide),
            tripledBasicString?_escape (hb _) (h _), hbehind]
          rfl
        | plain h =>
          rw [List.singleton_append, keepsQuotes_tripledBasicString?.replicate hrun hquote,
            tripledBasicString?_plain h, hbehind]
          rfl
        | lineBreak _ hc =>
          subst hc
          rw [List.singleton_append, keepsQuotes_tripledBasicString?.replicate hrun hquote,
            tripledBasicString?, if_neg (by decide), hbehind]
          rfl
      · exact hquote

/-! ### Literal strings -/

theorem isLiteralChar_of_needsEscape (h : needsEscape c = false) (hbreak : c ≠ '\n')
    (hquote : c ≠ '\'') : isLiteralChar c = true := by
  rw [isLiteralChar, isCommentChar_of_needsEscape h hbreak, decide_eq_true hquote]
  rfl

/-- A literal string is read as it was. -/
theorem literalString?_append (h : ∀ c ∈ cs, isLiteralChar c = true) (rest : List Char) :
    literalString? (cs ++ '\'' :: rest) = some (cs, rest) := by
  induction cs with
  | nil => rw [List.nil_append, literalString?]
  | cons c cs ih =>
    have hc := h c List.mem_cons_self
    rw [List.cons_append, literalString?, if_pos hc,
      ih fun other ho => h other (List.mem_cons_of_mem _ ho)]
    · rfl
    · rintro rfl
      exact absurd hc (by decide)

/-! ### Literal strings between tripled quotes -/

theorem keepsQuotes_tripledLiteralString? : KeepsQuotes tripledLiteralString? '\'' := by
  intro cs h
  rw [tripledLiteralString?]
  · exact fun rest => h _
  · exact fun rest => h _
  · exact h

theorem tripledLiteralString?_plain (h : needsEscape c = false) (hquote : c ≠ '\'')
    (cs : List Char) :
    tripledLiteralString? (c :: cs) = (tripledLiteralString? cs).map fun r => (c :: r.1, r.2) := by
  by_cases hbreak : c = '\n'
  · rw [hbreak, tripledLiteralString?]
  · rw [tripledLiteralString?, if_pos (isLiteralChar_of_needsEscape h hbreak hquote)]
    · exact fun _ hc _ => hquote hc
    · exact fun _ hc _ => hquote hc
    · exact fun _ hc _ => hquote hc
    · exact hquote
    · exact hbreak
    · rintro _ rfl _
      exact absurd h (by decide)

/-- Up to two quotes stand in front of those that close the string. -/
theorem tripledLiteralString?_close (hrun : run ≤ 2) (hrest : rest.head? ≠ some '\'') :
    tripledLiteralString? (List.replicate run '\'' ++ '\'' :: '\'' :: '\'' :: rest)
      = some (List.replicate run '\'', rest) := by
  have hhead : ∀ tail, rest ≠ '\'' :: tail := by
    rintro tail rfl
    exact hrest rfl
  match run, hrun with
  | 0, _ =>
    show tripledLiteralString? ('\'' :: '\'' :: '\'' :: rest) = _
    rw [tripledLiteralString?]
    · rfl
    · exact fun _ => hhead _
    · exact hhead
  | 1, _ =>
    show tripledLiteralString? ('\'' :: '\'' :: '\'' :: '\'' :: rest) = _
    rw [tripledLiteralString?]
    · rfl
    · exact hhead
  | 2, _ =>
    show tripledLiteralString? ('\'' :: '\'' :: '\'' :: '\'' :: '\'' :: rest) = _
    rw [tripledLiteralString?]
    rfl

/-- A literal string between tripled quotes is read as it was, with the quotes in front of it. -/
theorem tripledLiteralString?_append (h : ∀ c ∈ cs, needsEscape c = false)
    (hrun : longestRun '\'' run cs ≤ 2) (hrest : rest.head? ≠ some '\'') :
    tripledLiteralString? (List.replicate run '\'' ++ (cs ++ '\'' :: '\'' :: '\'' :: rest))
      = some (List.replicate run '\'' ++ cs, rest) := by
  induction cs generalizing run with
  | nil =>
    rw [longestRun] at hrun
    rw [List.nil_append, tripledLiteralString?_close hrun hrest, List.append_nil]
  | cons c cs ih =>
    have hcs : ∀ c ∈ cs, needsEscape c = false := fun other ho => h other (List.mem_cons_of_mem _ ho)
    rw [longestRun] at hrun
    split at hrun
    · next hquote =>
      have hbehind := ih hcs hrun
      rw [List.replicate_succ', List.append_assoc, List.append_assoc] at hbehind
      rw [hquote]
      exact hbehind
    · next hquote =>
      obtain ⟨hfront, hbehind⟩ := Nat.max_le.1 hrun
      have hbehind := ih hcs hbehind
      rw [List.replicate_zero, List.nil_append, List.nil_append] at hbehind
      rw [List.cons_append, keepsQuotes_tripledLiteralString?.replicate hfront hquote,
        tripledLiteralString?_plain (h c List.mem_cons_self) hquote, hbehind]
      rfl

/-! ### All forms -/

theorem le_longestRun (c : Char) (run : Nat) (cs : List Char) : run ≤ longestRun c run cs := by
  induction cs generalizing run with
  | nil => exact Nat.le_refl run
  | cons d cs ih =>
    rw [longestRun]
    split
    · exact Nat.le_of_succ_le (ih (run + 1))
    · exact Nat.le_max_left run _

theorem notMem_of_longestRun (h : longestRun c 0 cs = 0) : c ∉ cs := by
  induction cs with
  | nil => exact List.not_mem_nil
  | cons d cs ih =>
    rw [longestRun] at h
    split at h
    · have hrun := le_longestRun c (0 + 1) cs
      omega
    · next hd =>
      rw [Nat.zero_max] at h
      rw [List.mem_cons, not_or]
      exact ⟨fun hc => hd hc.symm, ih h⟩

namespace StringForm

/-- What has to hold of a text that is written in a form without escapes. -/
def Holds (cs : List Char) : StringForm → Prop
  | basic | tripledBasic => True
  | literal => cs ≠ [] ∧ ∀ c ∈ cs, isLiteralChar c = true
  | tripledLiteral => (∀ c ∈ cs, needsEscape c = false) ∧ longestRun '\'' 0 cs ≤ 2

theorem holds_plainest (cs : List Char) : (plainest cs).Holds cs := by
  have hcontrols : cs.any needsEscape = false → ∀ c ∈ cs, needsEscape c = false := by
    intro h c hc
    rw [List.any_eq_false] at h
    exact Bool.eq_false_iff.2 (h c hc)
  unfold plainest
  dsimp only
  split
  · trivial
  next hbasic =>
  split
  · next h =>
    simp only [Bool.and_eq_true, Bool.not_eq_true', decide_eq_true_eq] at h
    obtain ⟨⟨hcs, hruns⟩, hbreaks⟩ := h
    refine ⟨?_, fun c hc => isLiteralChar_of_needsEscape (hcontrols hcs c hc) ?_ ?_⟩
    · rintro rfl
      exact hbasic (by decide)
    · rintro rfl
      rw [List.contains_iff_mem.2 hc] at hbreaks
      cases hbreaks
    · rintro rfl
      exact notMem_of_longestRun hruns hc
  · split
    · trivial
    · split
      · next h =>
        simp only [Bool.and_eq_true, Bool.not_eq_true', decide_eq_true_eq] at h
        exact ⟨hcontrols h.1, h.2⟩
      · split <;> trivial

def body (cs : List Char) : StringForm → List Char
  | basic => escapeAll false 0 cs
  | tripledBasic => escapeAll true 0 cs
  | literal | tripledLiteral => cs

def lead (cs : List Char) (form : StringForm) : List Char :=
  if form.isTripled && cs.contains '\n' then ['\n'] else []

end StringForm

theorem toList_writeString (text : String) : (writeString text).toList
    = (StringForm.plainest text.toList).delimiter
      ++ (StringForm.plainest text.toList).lead text.toList
      ++ (StringForm.plainest text.toList).body text.toList
      ++ (StringForm.plainest text.toList).delimiter := by
  rw [writeString, String.toList_ofList]
  cases StringForm.plainest text.toList <;> rfl

/-- What is written between tripled quotes begins with a line break only if the text does. -/
theorem exists_escapeAll_eq_cons (cs tail : List Char) : ∃ d more,
    escapeAll true 0 cs ++ '"' :: tail = d :: more ∧ (d = '\n' → '\n' ∈ cs) ∧ d ≠ '\r' := by
  cases cs with
  | nil => exact ⟨_, _, rfl, by decide, by decide⟩
  | cons c cs =>
    by_cases hquote : c = '"'
    · subst hquote
      exact ⟨_, _, rfl, fun hc => absurd hc (by decide), by decide⟩
    · have hescaped := escaped_escapeChar true hquote
      rw [escapeAll]
      · generalize escapeChar true c = written at hescaped
        cases hescaped with
        | escape => exact ⟨_, _, rfl, fun hc => absurd hc (by decide), by decide⟩
        | plain h =>
          refine ⟨_, _, rfl, fun hc => ?_, ne_of_isBasicChar h (by decide)⟩
          exact absurd hc (ne_of_isBasicChar h (by decide))
        | lineBreak _ hc => exact ⟨_, _, rfl, fun _ => hc ▸ List.mem_cons_self, by decide⟩
      · exact hquote

/-- Between single quotes no other quote stands in front. -/
theorem escapeAll_ne_cons (hrest : rest.head? ≠ some '"') (cs tail : List Char) :
    escapeAll false 0 cs ++ '"' :: rest ≠ '"' :: '"' :: tail := by
  cases cs with
  | nil =>
    intro h
    rw [escapeAll, List.nil_append, List.cons.injEq] at h
    rw [h.2] at hrest
    exact hrest rfl
  | cons c cs =>
    by_cases hquote : c = '"'
    · subst hquote
      intro h
      cases h
    · have hescaped := escaped_escapeChar false hquote
      rw [escapeAll]
      · generalize escapeChar false c = written at hescaped
        cases hescaped with
        | escape =>
          intro h
          cases h
        | plain h =>
          intro h
          exact hquote (List.cons.inj h).1
        | lineBreak ht => cases ht
      · exact hquote

/-- The line break behind the opening quotes is not part of the string. -/
theorem dropLineBreak_lead {form : StringForm} (hform : form.isTripled = true) {d : Char}
    {more : List Char} (hfeed : d = '\n' → '\n' ∈ cs) (hreturn : d ≠ '\r') :
    dropLineBreak (form.lead cs ++ d :: more) = d :: more := by
  rw [StringForm.lead, hform, Bool.true_and]
  split
  · rfl
  · next hbreak =>
    rw [List.contains_iff_mem] at hbreak
    rw [List.nil_append, dropLineBreak, lineBreak?_cons (fun hd => hbreak (hfeed hd)) hreturn]
    rfl

theorem string?_form {form : StringForm} (h : form.Holds cs) (hquote : rest.head? ≠ some '"')
    (hapostrophe : rest.head? ≠ some '\'') :
    string? (form.delimiter ++ form.lead cs ++ form.body cs ++ form.delimiter ++ rest)
      = some (String.ofList cs, rest) := by
  simp only [List.append_assoc]
  cases form with
  | basic =>
    show string? ('"' :: (escapeAll false 0 cs ++ '"' :: rest)) = _
    rw [string?, basicString?_escapeAll]
    · rfl
    · exact escapeAll_ne_cons hquote cs
  | literal =>
    obtain ⟨hne, hcs⟩ := h
    show string? ('\'' :: (cs ++ '\'' :: rest)) = _
    rw [string?, literalString?_append hcs]
    · rfl
    · intro tail htail
      cases cs with
      | nil => exact hne rfl
      | cons c cs =>
        rw [List.cons_append] at htail
        rw [(List.cons.inj htail).1] at hcs
        exact absurd (hcs _ List.mem_cons_self) (by decide)
  | tripledBasic =>
    obtain ⟨d, more, hcons, hfeed, hreturn⟩ := exists_escapeAll_eq_cons cs ('"' :: '"' :: rest)
    have hread := tripledBasicString?_escapeAll cs (Nat.zero_le 2) hquote
    rw [List.replicate_zero, List.nil_append, List.nil_append] at hread
    show string? ('"' :: '"' :: '"' :: (StringForm.tripledBasic.lead cs
      ++ (escapeAll true 0 cs ++ '"' :: '"' :: '"' :: rest))) = _
    rw [string?, hcons, dropLineBreak_lead rfl hfeed hreturn, ← hcons, hread]
    rfl
  | tripledLiteral =>
    obtain ⟨hcs, hruns⟩ := h
    have hread := tripledLiteralString?_append hcs hruns hapostrophe
    rw [List.replicate_zero, List.nil_append, List.nil_append] at hread
    show string? ('\'' :: '\'' :: '\'' :: (StringForm.tripledLiteral.lead cs
      ++ (cs ++ '\'' :: '\'' :: '\'' :: rest))) = _
    rw [string?]
    cases cs with
    | nil =>
      rw [List.nil_append, dropLineBreak_lead rfl (by decide) (by decide)]
      exact congrArg (Option.map _) hread
    | cons c cs =>
      rw [List.cons_append, dropLineBreak_lead rfl (fun hc => hc ▸ List.mem_cons_self)]
      · exact congrArg (Option.map _) hread
      · rintro rfl
        exact absurd (hcs _ List.mem_cons_self) (by decide)

/-- A string that has been written is read as it was, if no further quote stands behind it. -/
theorem string?_writeString (text : String) (hquote : rest.head? ≠ some '"')
    (hapostrophe : rest.head? ≠ some '\'') :
    string? ((writeString text).toList ++ rest) = some (text, rest) := by
  have h := string?_form (StringForm.holds_plainest text.toList) hquote hapostrophe
  rwa [← toList_writeString, String.ofList_toList] at h

end ModuleHost.Toml
