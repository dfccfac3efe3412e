import ModuleHost.Proofs.Toml.Strings
import Mathlib.Data.List.Forall2
import Mathlib.Data.List.Nodup
import Mathlib.Data.List.TakeWhile

/-!
# Documents that have been written

A document with one header and entries behind it is read as one table with these entries
(`read?_document`), if each key is bare and no key occurs twice.  What an entry needs for this is
that its value is read as a node wherever it stands at the end of a line (`Reads`).
-/

namespace ModuleHost.Toml

variable {c d : Char} {rest tail : List Char} {depth limit : Nat} {key value : String} {node : Node}

/-! ### Values -/

theorem exists_writeString_eq_cons (text : String) :
    ∃ quote cs, (writeString text).toList = quote :: cs ∧ (quote = '"' ∨ quote = '\'') := by
  rw [toList_writeString]
  cases StringForm.plainest text.toList with
  | basic | tripledBasic => exact ⟨'"', _, rfl, Or.inl rfl⟩
  | literal | tripledLiteral => exact ⟨'\'', _, rfl, Or.inr rfl⟩

/-- A written string is a value. -/
theorem value?_writeString (depth : Nat) (text : String) (hquote : rest.head? ≠ some '"')
    (hapostrophe : rest.head? ≠ some '\'') :
    value? depth ((writeString text).toList ++ rest) = some (.string text, rest) := by
  have hread := string?_writeString text hquote hapostrophe
  obtain ⟨quote, cs, htext, hquotes⟩ := exists_writeString_eq_cons text
  rw [htext, List.cons_append] at hread ⊢
  have hscalar : scalar? (quote :: (cs ++ rest)) = some (.string text, rest) := by
    rcases hquotes with rfl | rfl
    · rw [scalar?, hread]
      rfl
    · rw [scalar?, hread]
      rfl
  cases depth with
  | zero => exact hscalar
  | succ depth => rcases hquotes with rfl | rfl <;> exact hscalar

theorem value?_writeBool (depth : Nat) (b : Bool) (rest : List Char) :
    value? depth ((writeBool b).toList ++ rest) = some (.boolean b, rest) := by
  cases b <;> cases depth <;> rfl

/-- Nothing is skipped in front of a written string. -/
theorem skipLines?_writeString (text : String) (rest : List Char) :
    skipLines? false ((writeString text).toList ++ rest)
      = some ((writeString text).toList ++ rest) := by
  obtain ⟨quote, cs, htext, hquotes⟩ := exists_writeString_eq_cons text
  rw [htext, List.cons_append]
  rcases hquotes with rfl | rfl <;> rfl

section Elements

variable {element? : List Char → Option (Node × List Char)} {cs after : List Char}

/-- An element with a comma behind it. -/
theorem elements?_next (hskip : skipLines? false cs = some (c :: tail)) (hc : c ≠ ']')
    (hread : element? (c :: tail) = some (node, after))
    (hafter : skipLines? false after = some (',' :: rest)) :
    elements? element? (limit + 1) cs
      = (elements? element? limit rest).map fun r => (node :: r.1, r.2) := by
  rw [elements?, hskip, Option.bind_eq_bind, Option.bind_some]
  split
  · next h => exact absurd (List.cons.inj h).1 hc
  · rw [hread, Option.bind_eq_bind, Option.bind_some]
    dsimp only
    rw [hafter, Option.bind_some, Option.map_eq_bind]
    rfl

/-- An element with a bracket behind it is the last one. -/
theorem elements?_last (hskip : skipLines? false cs = some (c :: tail)) (hc : c ≠ ']')
    (hread : element? (c :: tail) = some (node, after))
    (hafter : skipLines? false after = some (']' :: rest)) :
    elements? element? (limit + 1) cs = some ([node], rest) := by
  rw [elements?, hskip, Option.bind_eq_bind, Option.bind_some]
  split
  · next h => exact absurd (List.cons.inj h).1 hc
  · rw [hread, Option.bind_eq_bind, Option.bind_some]
    dsimp only
    rw [hafter, Option.bind_some]
    rfl

end Elements

def elementLine (text : String) : List Char :=
  '\n' :: ' ' :: ' ' :: ' ' :: ' ' :: ((writeString text).toList ++ [','])

theorem skipLines?_indent (cs : List Char) :
    skipLines? false ('\n' :: ' ' :: ' ' :: ' ' :: ' ' :: cs) = skipLines? false cs := rfl

theorem elements?_elementLines (depth : Nat) (texts : List String) (rest : List Char)
    (hlimit : texts.length < limit) :
    elements? (value? depth) limit (texts.flatMap elementLine ++ '\n' :: ']' :: rest)
      = some (texts.map .string, rest) := by
  induction texts generalizing limit with
  | nil =>
    obtain ⟨limit, rfl⟩ := Nat.exists_eq_succ_of_ne_zero (Nat.ne_zero_of_lt hlimit)
    rfl
  | cons text texts ih =>
    obtain ⟨limit, rfl⟩ := Nat.exists_eq_succ_of_ne_zero (Nat.ne_zero_of_lt hlimit)
    obtain ⟨quote, cs, htext, hquotes⟩ := exists_writeString_eq_cons text
    generalize hmore : texts.flatMap elementLine ++ '\n' :: ']' :: rest = more
    have hskip : skipLines? false ('\n' :: ' ' :: ' ' :: ' ' :: ' '
        :: ((writeString text).toList ++ ',' :: more))
          = some ((writeString text).toList ++ ',' :: more) :=
      (skipLines?_indent _).trans (skipLines?_writeString text _)
    have hread := @value?_writeString (',' :: more) depth text (by simp) (by simp)
    have hline : (text :: texts).flatMap elementLine ++ '\n' :: ']' :: rest
        = '\n' :: ' ' :: ' ' :: ' ' :: ' ' :: ((writeString text).toList ++ ',' :: more) := by
      rw [List.flatMap_cons, List.append_assoc, hmore, elementLine]
      simp only [List.cons_append, List.append_assoc, List.nil_append]
    rw [htext, List.cons_append] at hskip hread
    have hcomma : skipLines? false (',' :: more) = some (',' :: more) := rfl
    rw [hline, htext, List.cons_append, elements?_next hskip ?_ hread hcomma, ← hmore,
      ih (Nat.lt_of_succ_lt_succ hlimit)]
    · rfl
    · rcases hquotes with rfl | rfl <;> decide

theorem length_le_flatMap_elementLine (texts : List String) :
    texts.length ≤ (texts.flatMap elementLine).length := by
  induction texts with
  | nil => exact Nat.le_refl 0
  | cons text texts ih =>
    rw [List.flatMap_cons, List.length_append, List.length_cons, elementLine]
    simp only [List.length_cons]
    omega

/-- A written array of strings is a value. -/
theorem value?_writeStrings (depth : Nat) (texts : List String) (rest : List Char) :
    value? (depth + 1) ((writeStrings texts).toList ++ rest)
      = some (.array (texts.map .string), rest) := by
  match texts with
  | [] => rfl
  | [text] =>
    obtain ⟨quote, cs, htext, hquotes⟩ := exists_writeString_eq_cons text
    have hskip := skipLines?_writeString text (']' :: rest)
    have hread := @value?_writeString (']' :: rest) depth text (by simp) (by simp)
    have htextArray : (writeStrings [text]).toList ++ rest
        = '[' :: ((writeString text).toList ++ ']' :: rest) := by
      rw [writeStrings, String.toList_append, String.toList_append,
        show "[".toList = ['['] from rfl, show "]".toList = [']'] from rfl]
      simp only [List.cons_append, List.append_assoc, List.nil_append]
    rw [htext, List.cons_append] at hskip hread
    rw [htextArray, htext, List.cons_append, value?, elements?_last hskip ?_ hread rfl]
    · rfl
    · rcases hquotes with rfl | rfl <;> decide
  | text :: other :: texts =>
    have htextArray : (writeStrings (text :: other :: texts)).toList ++ rest
        = '[' :: ((text :: other :: texts).flatMap elementLine ++ '\n' :: ']' :: rest) := by
      have hline : ∀ text : String, ("\n    " ++ writeString text ++ ",").toList = elementLine text := by
        intro text
        rw [String.toList_append, String.toList_append, elementLine,
          show "\n    ".toList = ['\n', ' ', ' ', ' ', ' '] from rfl, show ",".toList = [','] from rfl]
        simp only [List.cons_append, List.nil_append]
      rw [writeStrings, String.toList_append, String.toList_append, String.toList_join,
        List.flatMap_map, show "[".toList = ['['] from rfl, show "\n]".toList = ['\n', ']'] from rfl]
      · simp only [hline, List.cons_append, List.append_assoc, List.nil_append]
      · exact nofun
      · exact nofun
    rw [htextArray, value?, elements?_elementLines]
    · rfl
    · have hlength := length_le_flatMap_elementLine (text :: other :: texts)
      rw [List.length_append]
      omega

/-! ### Keys -/

structure IsBareKey (key : String) : Prop where
  notEmpty : key.toList ≠ []
  bare : ∀ c ∈ key.toList, isBareKeyChar c = true

theorem isBareKey_of_all (h : (!key.toList.isEmpty && key.toList.all isBareKeyChar) = true) :
    IsBareKey key := by
  rw [Bool.and_eq_true, Bool.not_eq_true', List.isEmpty_eq_false_iff, List.all_eq_true] at h
  exact ⟨h.1, h.2⟩

/-- The first character of a bare key. -/
theorem IsBareKey.exists_cons (hk : IsBareKey key) :
    ∃ c cs, key.toList = c :: cs ∧ isBareKeyChar c = true := by
  cases hcs : key.toList with
  | nil => exact absurd hcs hk.notEmpty
  | cons c cs => exact ⟨c, cs, rfl, hk.bare c (hcs ▸ List.mem_cons_self)⟩

theorem ne_of_isBareKeyChar (h : isBareKeyChar c = true) (hd : isBareKeyChar d = false) :
    c ≠ d := by
  rintro rfl
  rw [hd] at h
  cases h

theorem isSpace_of_isBareKeyChar (h : isBareKeyChar c = true) : isSpace c = false := by
  rw [isSpace, decide_eq_false (ne_of_isBareKeyChar h (by decide)),
    decide_eq_false (ne_of_isBareKeyChar h (by decide))]
  rfl

theorem keyPart?_bare (hk : IsBareKey key) (hc : isBareKeyChar c = false) (rest : List Char) :
    keyPart? (key.toList ++ c :: rest) = some (key, c :: rest) := by
  have htake : (key.toList ++ c :: rest).takeWhile isBareKeyChar = key.toList := by
    rw [List.takeWhile_append_of_pos hk.bare, List.takeWhile_cons_of_neg (by rw [hc]; decide),
      List.append_nil]
  have hdrop : (key.toList ++ c :: rest).dropWhile isBareKeyChar = c :: rest := by
    rw [List.dropWhile_append_of_pos hk.bare, List.dropWhile_cons_of_neg (by rw [hc]; decide)]
  obtain ⟨b, cs, hcs, hb⟩ := hk.exists_cons
  rw [keyPart?, htake, hdrop, if_neg, String.ofList_toList]
  · rw [hcs]
    exact nofun
  · rw [hcs]
    rintro tail htail
    exact ne_of_isBareKeyChar hb (by decide) (List.cons.inj htail).1
  · rw [hcs]
    rintro tail htail
    exact ne_of_isBareKeyChar hb (by decide) (List.cons.inj htail).1

theorem skipSpaces_bare (hk : IsBareKey key) (rest : List Char) :
    skipSpaces (key.toList ++ rest) = key.toList ++ rest := by
  obtain ⟨b, cs, hcs, hb⟩ := hk.exists_cons
  rw [hcs, List.cons_append, skipSpaces,
    List.dropWhile_cons_of_neg (by rw [isSpace_of_isBareKeyChar hb]; decide)]

/-- A bare key with something else than a dot behind it is a key of one part. -/
theorem key?_bare (hk : IsBareKey key) (hc : isBareKeyChar c = false)
    (hskip : skipSpaces (c :: rest) = d :: tail) (hd : d ≠ '.') :
    key? (key.toList ++ c :: rest) = some ([key], d :: tail) := by
  rw [key?, nestingLimit, keyParts?, skipSpaces_bare hk, keyPart?_bare hk hc, Option.bind_eq_bind,
    Option.bind_some]
  dsimp only
  rw [hskip]
  split
  · next h => exact absurd (List.cons.inj h).1 hd
  · rfl

/-! ### Entries -/

/-- The value is read as the node at the end of a line. -/
structure Reads (value : String) (node : Node) : Prop where
  first : ∃ c cs, value.toList = c :: cs ∧ isSpace c = false
  read : ∀ rest, value? nestingLimit (value.toList ++ '\n' :: rest) = some (node, '\n' :: rest)

theorem reads_writeString (text : String) : Reads (writeString text) (.string text) where
  first := by
    obtain ⟨quote, cs, htext, hquotes⟩ := exists_writeString_eq_cons text
    exact ⟨quote, cs, htext, by rcases hquotes with rfl | rfl <;> rfl⟩
  read rest := value?_writeString nestingLimit text (by simp) (by simp)

theorem reads_writeStrings (texts : List String) :
    Reads (writeStrings texts) (.array (texts.map .string)) where
  first := by
    refine ⟨'[', (writeStrings texts).toList.tail, ?_, rfl⟩
    unfold writeStrings
    split <;> simp
  read rest := value?_writeStrings _ texts _

theorem reads_writeBool (b : Bool) : Reads (writeBool b) (.boolean b) where
  first := by cases b <;> exact ⟨_, _, rfl, rfl⟩
  read rest := value?_writeBool nestingLimit b _

/-- The entry of a key that is new. -/
theorem insert_singleton {entries : Entries} (hnew : key ∉ entries.map Prod.fst) (node : Node) :
    Entries.insert [key] node entries = some (entries ++ [(key, node)]) := by
  have hlookup : entries.lookup key = none := by
    rw [List.lookup_eq_none_iff]
    intro entry hentry
    rw [bne_iff_ne]
    rintro rfl
    exact hnew (List.mem_map_of_mem hentry)
  simp [Entries.insert, Entries.descend, hlookup]

theorem toList_writeEntry (key value : String) (rest : List Char) :
    (writeEntry key value).toList ++ rest
      = key.toList ++ ' ' :: '=' :: ' ' :: (value.toList ++ '\n' :: rest) := by
  rw [writeEntry, String.toList_append, String.toList_append, String.toList_append,
    show " = ".toList = [' ', '=', ' '] from rfl, show "\n".toList = ['\n'] from rfl]
  simp only [List.append_assoc, List.cons_append, List.nil_append]

/-- A written entry is read as the last one of the current table. -/
theorem entry?_writeEntry (doc : Document) (hk : IsBareKey key) (hv : Reads value node)
    (hnew : key ∉ doc.current.map Prod.fst) (rest : List Char) :
    entry? doc ((writeEntry key value).toList ++ rest)
      = some ({ doc with current := doc.current ++ [(key, node)] }, rest) := by
  obtain ⟨c, cs, hcs, hc⟩ := hv.first
  have hskip : skipSpaces (' ' :: (value.toList ++ '\n' :: rest)) = value.toList ++ '\n' :: rest := by
    rw [hcs, List.cons_append, skipSpaces, List.dropWhile_cons_of_pos rfl,
      List.dropWhile_cons_of_neg (by rw [hc]; decide)]
  have hkey : key? (key.toList ++ ' ' :: '=' :: ' ' :: (value.toList ++ '\n' :: rest))
      = some ([key], '=' :: ' ' :: (value.toList ++ '\n' :: rest)) :=
    key?_bare hk rfl rfl (by decide)
  rw [toList_writeEntry, entry?, hkey]
  simp only [Option.bind_eq_bind, Option.bind_some, char?, if_pos, hskip, hv.read]
  rw [show restOfLine? ('\n' :: rest) = some rest from rfl]
  simp only [Option.bind_some, Document.insert, insert_singleton hnew]
  rfl

/-- An entry is a line, as the first character of its key is nothing else. -/
theorem line?_writeEntry (doc : Document) (hk : IsBareKey key) (hv : Reads value node)
    (hnew : key ∉ doc.current.map Prod.fst) (rest : List Char) :
    line? doc ((writeEntry key value).toList ++ rest)
      = some ({ doc with current := doc.current ++ [(key, node)] }, rest) := by
  have hentry := entry?_writeEntry doc hk hv hnew rest
  have hskip : skipSpaces ((writeEntry key value).toList ++ rest)
      = (writeEntry key value).toList ++ rest := by
    rw [toList_writeEntry, skipSpaces_bare hk]
  rw [line?, hskip]
  obtain ⟨b, cs, hcs, hb⟩ := hk.exists_cons
  rw [toList_writeEntry, hcs, List.cons_append] at hentry ⊢
  have hother : ¬ (b = '\n' ∨ b = '\r' ∨ b = '#') := by
    rintro (rfl | rfl | rfl) <;> cases hb
  split
  · next h => cases h
  · next h => exact absurd (List.cons.inj h).1 (ne_of_isBareKeyChar hb (by decide))
  · next h =>
    cases h
    rw [if_neg hother, hentry]

/-- A setting as it is written, and the entry as which it is read. -/
structure Written (setting : String × String) (entry : String × Node) : Prop where
  key : setting.1 = entry.1
  bare : IsBareKey setting.1
  reads : Reads setting.2 entry.2

/-- Written entries are read behind those that are there. -/
theorem allLines?_entries {settings : List (String × String)} {entries : Entries}
    (h : List.Forall₂ Written settings entries) (doc : Document)
    (hkeys : ((doc.current ++ entries).map Prod.fst).Nodup) (hlimit : settings.length ≤ limit) :
    allLines? limit doc (settings.flatMap fun s => (writeEntry s.1 s.2).toList)
      = some { doc with current := doc.current ++ entries } := by
  induction h generalizing doc limit with
  | nil => rw [List.flatMap_nil, allLines?, List.append_nil]
  | @cons setting entry settings entries hw _ ih =>
    obtain ⟨limit, rfl⟩ := Nat.exists_eq_succ_of_ne_zero (Nat.ne_zero_of_lt hlimit)
    have hnew : setting.1 ∉ doc.current.map Prod.fst := by
      rw [List.map_append, List.nodup_append] at hkeys
      intro hmem
      exact hkeys.2.2 _ hmem _ List.mem_cons_self hw.key
    have hline := line?_writeEntry doc hw.bare hw.reads hnew
      (settings.flatMap fun s => (writeEntry s.1 s.2).toList)
    have hentry : (setting.1, entry.2) = entry := by rw [hw.key]
    rw [hentry] at hline
    have hrest := ih { doc with current := doc.current ++ [entry] }
      (by rwa [List.append_assoc, List.singleton_append]) (Nat.le_of_succ_le_succ hlimit)
    rw [List.append_assoc, List.singleton_append] at hrest
    rw [List.flatMap_cons, allLines?, hline]
    · exact hrest
    · rw [toList_writeEntry]
      simp

/-- A written header starts the table. -/
theorem line?_writeHeader (hk : IsBareKey key) (rest : List Char) :
    line? {} ((writeHeader key).toList ++ rest) = some ({ path := [key] }, rest) := by
  have htext : (writeHeader key).toList ++ rest = '[' :: (key.toList ++ ']' :: '\n' :: rest) := by
    rw [writeHeader, String.toList_append, String.toList_append,
      show "[".toList = ['['] from rfl, show "]\n".toList = [']', '\n'] from rfl]
    simp only [List.cons_append, List.append_assoc, List.nil_append]
  have hkey : key? (key.toList ++ ']' :: '\n' :: rest) = some ([key], ']' :: '\n' :: rest) :=
    key?_bare hk rfl rfl (by decide)
  obtain ⟨b, cs, hcs, hb⟩ := hk.exists_cons
  rw [htext]
  show header? {} (key.toList ++ ']' :: '\n' :: rest) = _
  rw [hcs, List.cons_append] at hkey ⊢
  unfold header?
  split
  · next h => exact absurd (List.cons.inj h).1 (ne_of_isBareKeyChar hb (by decide))
  · rw [hkey]
    rfl

theorem length_le_flatMap_writeEntry (settings : List (String × String)) :
    settings.length ≤ (settings.flatMap fun s => (writeEntry s.1 s.2).toList).length := by
  induction settings with
  | nil => exact Nat.le_refl 0
  | cons setting settings ih =>
    have hentry := congrArg List.length (toList_writeEntry setting.1 setting.2 [])
    rw [List.append_nil, List.length_append, List.length_cons] at hentry
    rw [List.flatMap_cons, List.length_append, List.length_cons]
    omega

/-- A document with one header is read as one table. -/
theorem read?_document {settings : List (String × String)} {entries : Entries}
    (hk : IsBareKey key) (h : List.Forall₂ Written settings entries)
    (hkeys : (entries.map Prod.fst).Nodup) :
    read? (writeHeader key ++ String.join (settings.map fun s => writeEntry s.1 s.2))
      = some [(key, .table .header entries)] := by
  have htext : (writeHeader key ++ String.join (settings.map fun s => writeEntry s.1 s.2)).toList
      = (writeHeader key).toList
        ++ settings.flatMap fun s => (writeEntry s.1 s.2).toList := by
    rw [String.toList_append, String.toList_join, List.flatMap_map]
  have hline := line?_writeHeader hk (settings.flatMap fun s => (writeEntry s.1 s.2).toList)
  obtain ⟨tail, hhead⟩ : ∃ tail, (writeHeader key).toList = '[' :: tail := by
    rw [writeHeader, String.toList_append, String.toList_append, show "[".toList = ['['] from rfl,
      List.append_assoc]
    exact ⟨_, rfl⟩
  have hlength := length_le_flatMap_writeEntry settings
  rw [hhead, List.cons_append] at htext hline
  have hlimit : settings.length
      ≤ (tail ++ settings.flatMap fun s => (writeEntry s.1 s.2).toList).length := by
    rw [List.length_append]
    omega
  have hlines := allLines?_entries h { path := [key] } hkeys hlimit
  rw [read?, htext, dropMark, if_neg (by decide), List.length_cons, allLines?, hline]
  · simp only [Option.bind_eq_bind, Option.bind_some, hlines]
    rfl
  · exact nofun

end ModuleHost.Toml
