import ModuleHost.Listing
import ModuleHost.Proofs.Listing.Instructions
import ModuleHost.Proofs.Text.Quoted

/-!
# What a listing shows

A listing with line numbers shows one row for each instruction: the instruction, as far as its text
goes, the line and the symbol (`Row`).  The numbers stand in columns, an instruction and its symbol
are told apart by the first semicolon, and a row ends at the first line break; so listings of units
of one file that are alike show the same rows (`rows_eq_of_ofUnits_eq`).
-/

namespace ModuleHost.Listing

structure Row where
  instruction : Instruction
  line : UInt32
  symbol? : Option String
deriving DecidableEq, Repr

def shownSymbol? (u : CodeUnit) (i : Instruction) : Option String :=
  if i.opcode.hasSymbolOperand then u.symbol? i.imm else none

def rowAt (u : CodeUnit) (position : Nat) (i : Instruction) : Row :=
  { instruction := i.shown, line := u.lineAt position, symbol? := shownSymbol? u i }

/-- What is shown of a unit, but for its position and its file. -/
def rows (u : CodeUnit) : List Row := u.instructions.mapIdx (rowAt u)

variable {u v : CodeUnit} {i j : Instruction} {n k width position : Nat} {as bs : List Char}

/-! ### Columns -/

theorem toList_padStart (width n : Nat) :
    (Text.padStart width (toString n)).toList
      = List.replicate (width - (toString n).length) ' ' ++ Nat.toDigits 10 n := by
  rw [Text.padStart, String.toList_append, String.toList_ofList, Nat.toString_eq_repr,
    Nat.toList_repr]

/-- The blanks in front of a number are no part of it. -/
theorem dropWhile_padStart (width n : Nat) (as : List Char) :
    ((Text.padStart width (toString n)).toList ++ as).dropWhile (· = ' ')
      = Nat.toDigits 10 n ++ as := by
  have hblanks : ∀ c ∈ List.replicate (width - (toString n).length) ' ',
      decide (c = ' ') = true := fun c hc => decide_eq_true (List.eq_of_mem_replicate hc)
  rw [toList_padStart, List.append_assoc, List.dropWhile_append_of_pos hblanks]
  cases hdigits : Nat.toDigits 10 n with
  | nil => exact absurd hdigits Nat.toDigits_ne_nil
  | cons c digits =>
    have hc : c ≠ ' ' := by
      rintro rfl
      have hdigit : ' ' ∈ Nat.toDigits 10 n := hdigits ▸ List.mem_cons_self
      exact absurd (Text.isDigit_of_mem_toDigits hdigit) (by decide)
    rw [List.cons_append, List.dropWhile_cons_of_neg (by simpa using hc)]

/-- A column shows its number, whatever stands behind it. -/
theorem padStart_append_inj
    (h : (Text.padStart width (toString n)).toList ++ ' ' :: as
      = (Text.padStart width (toString k)).toList ++ ' ' :: bs) : n = k ∧ as = bs := by
  have hdrop := congrArg (List.dropWhile (· = ' ')) h
  rw [dropWhile_padStart, dropWhile_padStart] at hdrop
  exact Text.toDigits_append_inj (by decide) (by decide) hdrop

theorem mem_padStart {c : Char} (h : c ∈ (Text.padStart width (toString n)).toList) :
    c = ' ' ∨ c.isDigit = true := by
  rw [toList_padStart] at h
  exact (List.mem_append.1 h).imp List.eq_of_mem_replicate Text.isDigit_of_mem_toDigits

/-! ### Symbols -/

theorem symbolComment_of_none (h : shownSymbol? u i = none) : symbolComment u i = "" := by
  unfold shownSymbol? at h
  unfold symbolComment
  split
  · next hsymbol =>
    rw [if_pos hsymbol] at h
    rw [h]
  · rfl

theorem toList_symbolComment {symbol : String} (h : shownSymbol? u i = some symbol) :
    (symbolComment u i).toList = ' ' :: ' ' :: ';' :: ' ' ::
      ((Instruction.symbolText i.imm).toList
        ++ ' ' :: '=' :: ' ' :: (Text.quote symbol).toList) := by
  unfold shownSymbol? at h
  split at h
  · next hsymbol =>
    rw [symbolComment, if_pos hsymbol, h]
    simp only [String.toList_append, List.append_assoc]
    rfl
  · cases h

theorem newline_symbolComment (u : CodeUnit) (i : Instruction) :
    '\n' ∉ (symbolComment u i).toList := by
  cases hsymbol : shownSymbol? u i with
  | none =>
    rw [symbolComment_of_none hsymbol]
    exact List.not_mem_nil
  | some symbol =>
    have hindex : '\n' ∉ (Instruction.symbolText i.imm).toList := fun hmem =>
      Instruction.undivided_symbolText i.imm '\n' hmem (by decide)
    have hquote := Text.newline_quote symbol
    rw [toList_symbolComment hsymbol]
    simp [hindex, hquote]

/-- An instruction and its symbol are told apart: no comment begins in the text of the
instruction. -/
theorem text_append_symbolComment_inj
    (h : i.text.toList ++ (symbolComment u i).toList
      = j.text.toList ++ (symbolComment v j).toList) :
    i.text = j.text ∧ shownSymbol? u i = shownSymbol? v j := by
  have hnone : ∀ k : Instruction, ∀ c ∈ k.text.toList ++ [' ', ' '], c ≠ ';' := by
    intro k c hc
    rcases List.mem_append.1 hc with hc | hc
    · exact (k.ne_of_mem_text c hc).1
    · have hblank : ∀ c ∈ [' ', ' '], c ≠ ';' := by simp
      exact hblank c hc
  have hsome : ∀ (k : Instruction) (tail : List Char),
      k.text.toList ++ ' ' :: ' ' :: ';' :: tail = (k.text.toList ++ [' ', ' ']) ++ ';' :: tail :=
    fun k tail => by rw [List.append_assoc]; rfl
  have hindex : ∀ m : Int32, ∀ c ∈ (Instruction.symbolText m).toList, c ≠ ' ' := by
    rintro m c hc rfl
    exact Instruction.undivided_symbolText m ' ' hc (by decide)
  cases hi : shownSymbol? u i with
  | none =>
    rw [symbolComment_of_none hi, String.toList_empty, List.append_nil] at h
    cases hj : shownSymbol? v j with
    | none =>
      rw [symbolComment_of_none hj, String.toList_empty, List.append_nil] at h
      exact ⟨String.toList_inj.1 h, rfl⟩
    | some t =>
      rw [toList_symbolComment hj, hsome] at h
      have hmem : ';' ∈ i.text.toList := h ▸ List.mem_append_right _ List.mem_cons_self
      exact absurd rfl (i.ne_of_mem_text ';' hmem).1
  | some s =>
    rw [toList_symbolComment hi, hsome] at h
    cases hj : shownSymbol? v j with
    | none =>
      rw [symbolComment_of_none hj, String.toList_empty, List.append_nil] at h
      have hmem : ';' ∈ j.text.toList := h ▸ List.mem_append_right _ List.mem_cons_self
      exact absurd rfl (j.ne_of_mem_text ';' hmem).1
    | some t =>
      rw [toList_symbolComment hj, hsome] at h
      obtain ⟨htext, -, hcomment⟩ := Text.append_cons_inj (hnone i) (hnone j)
        (not_not_intro rfl) (not_not_intro rfl) h
      obtain ⟨-, -, hquote⟩ := Text.append_cons_inj (hindex i.imm) (hindex j.imm)
        (not_not_intro rfl) (not_not_intro rfl) (List.cons.inj hcomment).2
      simp only [List.cons.injEq, true_and] at hquote
      exact ⟨String.toList_inj.1 (List.append_cancel_right htext),
        congrArg some (Text.quote_inj (String.toList_inj.1 hquote))⟩

/-! ### Rows -/

/-- The characters of a line, column by column. -/
theorem toList_instructionLine (u : CodeUnit) (position : Nat) (i : Instruction) :
    (instructionLine true u position i).toList
      = ((Text.padStart 4 (toString position)).toList
        ++ ' ' :: ((Text.padStart 4 (toString (u.lineAt position).toNat)).toList
          ++ ' ' :: ' ' :: (i.text.toList ++ (symbolComment u i).toList))) ++ ['\n'] := by
  have hblank : " ".toList = [' '] := rfl
  have hblanks : "  ".toList = [' ', ' '] := rfl
  have hnewline : "\n".toList = ['\n'] := rfl
  simp only [instructionLine, if_true, String.toList_append, List.append_assoc, hblank, hblanks,
    hnewline, List.cons_append, List.nil_append]

theorem newline_columns (u : CodeUnit) (position : Nat) (i : Instruction) :
    ∀ c ∈ (Text.padStart 4 (toString position)).toList
      ++ ' ' :: ((Text.padStart 4 (toString (u.lineAt position).toNat)).toList
        ++ ' ' :: ' ' :: (i.text.toList ++ (symbolComment u i).toList)), c ≠ '\n' := by
  have hcolumn : ∀ n : Nat, ∀ c ∈ (Text.padStart 4 (toString n)).toList, c ≠ '\n' := by
    intro n c hc
    rcases mem_padStart hc with rfl | hdigit
    · decide
    · rintro rfl
      cases hdigit
  intro c hc
  rcases List.mem_append.1 hc with hc | hc
  · exact hcolumn _ c hc
  rcases List.mem_cons.1 hc with rfl | hc
  · decide
  rcases List.mem_append.1 hc with hc | hc
  · exact hcolumn _ c hc
  rcases List.mem_cons.1 hc with rfl | hc
  · decide
  rcases List.mem_cons.1 hc with rfl | hc
  · decide
  rcases List.mem_append.1 hc with hc | hc
  · exact (i.ne_of_mem_text c hc).2
  · rintro rfl
    exact newline_symbolComment u i hc

/-- A row ends where its line does. -/
theorem instructionLine_append_inj
    (h : (instructionLine true u position i).toList ++ as
      = (instructionLine true v position j).toList ++ bs) :
    rowAt u position i = rowAt v position j ∧ as = bs := by
  rw [toList_instructionLine, toList_instructionLine, List.append_assoc _ ['\n'],
    List.append_assoc _ ['\n']] at h
  obtain ⟨hcolumns, -, hrest⟩ := Text.append_cons_inj (newline_columns u position i)
    (newline_columns v position j) (not_not_intro rfl) (not_not_intro rfl) h
  obtain ⟨-, hcolumns⟩ := List.cons.inj (List.append_cancel_left hcolumns)
  obtain ⟨hline, hcolumns⟩ := padStart_append_inj hcolumns
  obtain ⟨htext, hsymbol⟩ := text_append_symbolComment_inj (List.cons.inj hcolumns).2
  refine ⟨?_, hrest⟩
  rw [rowAt, rowAt, Instruction.shown_eq_of_text_eq htext, UInt32.toNat_inj.1 hline, hsymbol]

/-- What comes behind the lines of a unit: nothing, or another heading. -/
def Ends (cs : List Char) : Prop := cs = [] ∨ ∃ rest, cs = ';' :: rest

/-- A line is not the end of the lines. -/
theorem not_ends_instructionLine (u : CodeUnit) (position : Nat) (i : Instruction)
    (as : List Char) : ¬ Ends ((instructionLine true u position i).toList ++ as) := by
  rw [toList_instructionLine, List.append_assoc, List.append_assoc, List.cons_append]
  generalize ' ' :: _ = rest
  cases hcs : (Text.padStart 4 (toString position)).toList with
  | nil =>
    rw [toList_padStart] at hcs
    exact absurd (List.append_eq_nil_iff.1 hcs).2 Nat.toDigits_ne_nil
  | cons c cs =>
    rintro (hnil | ⟨tail, htail⟩)
    · cases hnil
    · have hc := mem_padStart (hcs ▸ List.mem_cons_self)
      rw [(List.cons.inj htail).1] at hc
      exact absurd hc (by decide)

/-- The lines of instructions show their rows, up to the end of the lines. -/
theorem instructionLines_append_inj {is js : List Instruction} (ha : Ends as) (hb : Ends bs)
    (h : (String.join (is.mapIdx fun k => instructionLine true u (n + k))).toList ++ as
      = (String.join (js.mapIdx fun k => instructionLine true v (n + k))).toList ++ bs) :
    (is.mapIdx fun k => rowAt u (n + k)) = (js.mapIdx fun k => rowAt v (n + k)) ∧ as = bs := by
  have hcons : ∀ (w : CodeUnit) (n : Nat) (i : Instruction) (is : List Instruction)
      (cs : List Char),
      (String.join ((i :: is).mapIdx fun k => instructionLine true w (n + k))).toList ++ cs
        = (instructionLine true w n i).toList
          ++ ((String.join (is.mapIdx fun k => instructionLine true w (n + 1 + k))).toList
            ++ cs) := by
    intro w n i is cs
    rw [List.mapIdx_cons, String.join_cons, String.toList_append, List.append_assoc]
    simp only [Nat.add_zero, Nat.add_assoc, Nat.add_comm 1]
  have hrows : ∀ (w : CodeUnit) (n : Nat) (i : Instruction) (is : List Instruction),
      ((i :: is).mapIdx fun k => rowAt w (n + k))
        = rowAt w n i :: is.mapIdx fun k => rowAt w (n + 1 + k) := by
    intro w n i is
    rw [List.mapIdx_cons]
    simp only [Nat.add_zero, Nat.add_assoc, Nat.add_comm 1]
  induction is generalizing js n with
  | nil =>
    cases js with
    | nil => exact ⟨rfl, h⟩
    | cons j js =>
      rw [hcons] at h
      have heq : as = _ := h
      exact absurd (heq ▸ ha) (not_ends_instructionLine v n j _)
  | cons i is ih =>
    rw [hcons] at h
    cases js with
    | nil =>
      have heq : _ = bs := h
      exact absurd (heq ▸ hb) (not_ends_instructionLine u n i _)
    | cons j js =>
      rw [hcons] at h
      obtain ⟨hrow, hrest⟩ := instructionLine_append_inj h
      obtain ⟨htail, heq⟩ := ih hrest
      rw [hrows, hrows, hrow, htail]
      exact ⟨rfl, heq⟩

theorem ofUnit_append_inj (ha : Ends as) (hb : Ends bs)
    (h : (ofUnit true u).toList ++ as = (ofUnit true v).toList ++ bs) :
    rows u = rows v ∧ as = bs := by
  have hzero : ∀ w : CodeUnit, ofUnit true w
      = String.join (w.instructions.mapIdx fun k => instructionLine true w (0 + k)) := by
    intro w
    simp only [ofUnit, Nat.zero_add]
  have hrows : ∀ w : CodeUnit, rows w = w.instructions.mapIdx fun k => rowAt w (0 + k) := by
    intro w
    simp only [rows, Nat.zero_add]
  rw [hzero, hzero] at h
  rw [hrows, hrows]
  exact instructionLines_append_inj ha hb h

/-! ### Groups -/

variable {us vs : List CodeUnit} {filename : Option String}

def ofUnitsFrom (n : Nat) (us : List CodeUnit) : String :=
  String.join (us.mapIdx fun k u => heading (n + k) u ++ ofUnit true u)

theorem ofUnitsFrom_zero (us : List CodeUnit) : ofUnitsFrom 0 us = ofUnits true us := by
  simp only [ofUnitsFrom, Nat.zero_add, ofUnits]

theorem toList_ofUnitsFrom_cons (n : Nat) (u : CodeUnit) (us : List CodeUnit) :
    (ofUnitsFrom n (u :: us)).toList
      = (heading n u).toList ++ ((ofUnit true u).toList ++ (ofUnitsFrom (n + 1) us).toList) := by
  rw [ofUnitsFrom, List.mapIdx_cons, String.join_cons, String.toList_append, String.toList_append,
    List.append_assoc]
  simp only [ofUnitsFrom, Nat.add_zero, Nat.add_assoc, Nat.add_comm 1]

theorem exists_toList_heading (n : Nat) (u : CodeUnit) :
    ∃ rest, (heading n u).toList = ';' :: rest := by
  have hstart : "; unit ".toList = [';', ' ', 'u', 'n', 'i', 't', ' '] := rfl
  simp only [heading, String.toList_append, List.append_assoc, hstart, List.cons_append]
  exact ⟨_, rfl⟩

theorem ends_ofUnitsFrom (n : Nat) (us : List CodeUnit) : Ends (ofUnitsFrom n us).toList := by
  cases us with
  | nil => exact Or.inl rfl
  | cons u us =>
    obtain ⟨rest, hrest⟩ := exists_toList_heading n u
    rw [toList_ofUnitsFrom_cons, hrest]
    exact Or.inr ⟨_, rfl⟩

theorem rows_eq_of_ofUnitsFrom_eq (hus : ∀ u ∈ us, u.filename = filename)
    (hvs : ∀ v ∈ vs, v.filename = filename)
    (h : (ofUnitsFrom n us).toList = (ofUnitsFrom n vs).toList) : us.map rows = vs.map rows := by
  have hne : ∀ (n : Nat) (u : CodeUnit) (tail : List Char), (heading n u).toList ++ tail ≠ [] := by
    intro n u tail hnil
    obtain ⟨rest, hrest⟩ := exists_toList_heading n u
    rw [hrest] at hnil
    cases hnil
  induction us generalizing vs n with
  | nil =>
    cases vs with
    | nil => rfl
    | cons v vs =>
      rw [toList_ofUnitsFrom_cons] at h
      exact absurd h.symm (hne n v _)
  | cons u us ih =>
    rw [toList_ofUnitsFrom_cons] at h
    cases vs with
    | nil => exact absurd h (hne n u _)
    | cons v vs =>
      rw [toList_ofUnitsFrom_cons] at h
      have hheading : heading n u = heading n v := by
        rw [heading, heading, hus u List.mem_cons_self, hvs v List.mem_cons_self]
      rw [hheading] at h
      obtain ⟨hrows, hrest⟩ := ofUnit_append_inj (ends_ofUnitsFrom _ us) (ends_ofUnitsFrom _ vs)
        (List.append_cancel_left h)
      have htail := ih (fun u' hu' => hus u' (List.mem_cons_of_mem u hu'))
        (fun v' hv' => hvs v' (List.mem_cons_of_mem v hv')) hrest
      rw [List.map_cons, List.map_cons, hrows, htail]

/-- Listings of units of one file that are alike show the same rows, unit by unit. -/
theorem rows_eq_of_ofUnits_eq (hus : ∀ u ∈ us, u.filename = filename)
    (hvs : ∀ v ∈ vs, v.filename = filename) (h : ofUnits true us = ofUnits true vs) :
    us.map rows = vs.map rows := by
  rw [← ofUnitsFrom_zero, ← ofUnitsFrom_zero] at h
  exact rows_eq_of_ofUnitsFrom_eq hus hvs (congrArg String.toList h)

end ModuleHost.Listing
