import ModuleHost.CodeUnit
import Mathlib.Data.List.Basic
import Mathlib.Data.List.Induction

/-!
# Units in the making

A unit is made by edits: symbols are interned, instructions are added, and a last halt may become a
return.  No edit moves a symbol or a line that is there (`Edit.extends`), symbols stay distinct and
every instruction has its line (`Tidy.apply`).  So whatever row of edits makes a unit out of the empty
one, an index that was handed out names its symbol for good, and an instruction keeps its line
(`Chronicled`).
-/

namespace ModuleHost.CodeUnit

inductive Edit where
  | intern (symbol : String)
  | push (i : Instruction) (line : UInt32)
  | finalize
deriving DecidableEq, Repr

def Edit.apply : Edit → CodeUnit → CodeUnit
  | intern symbol, u => (u.intern symbol).1
  | push i line, u => u.push i line
  | finalize, u => u.finalize

/-- The unit after a row of edits on the empty one. -/
def ofEdits (edits : List Edit) : CodeUnit := edits.foldl (fun u edit => edit.apply u) {}

variable {u v w : CodeUnit} {edits earlier later : List Edit} {edit : Edit}

theorem ofEdits_concat : ofEdits (edits ++ [edit]) = edit.apply (ofEdits edits) :=
  List.foldl_concat ..

/-! ### What an edit leaves in its place -/

/-- The symbols and the lines of the unit stand in the other one too, where they stood. -/
structure Extends (u v : CodeUnit) : Prop where
  symbols : u.symbols <+: v.symbols
  lines : u.lines <+: v.lines

theorem Extends.refl (u : CodeUnit) : u.Extends u := ⟨List.prefix_rfl, List.prefix_rfl⟩

theorem Extends.trans (h : u.Extends v) (h' : v.Extends w) : u.Extends w :=
  ⟨h.symbols.trans h'.symbols, h.lines.trans h'.lines⟩

theorem Extends.symbol (h : u.Extends v) {index : Nat} {symbol : String}
    (hu : u.symbols[index]? = some symbol) : v.symbols[index]? = some symbol := by
  obtain ⟨new, hnew⟩ := h.symbols
  have hlt := (List.getElem?_eq_some_iff.1 hu).1
  rw [← hnew, List.getElem?_append_left hlt, hu]

theorem Extends.lineAt (h : u.Extends v) {position : Nat} (hu : position < u.lines.length) :
    v.lineAt position = u.lineAt position := by
  obtain ⟨new, hnew⟩ := h.lines
  rw [CodeUnit.lineAt, CodeUnit.lineAt, ← hnew, List.getElem?_append_left hu]

theorem Edit.extends (edit : Edit) (u : CodeUnit) : u.Extends (edit.apply u) := by
  cases edit with
  | intern symbol =>
    obtain ⟨new, index, hintern, -⟩ := u.intern_eq symbol
    rw [apply, hintern]
    exact ⟨List.prefix_append _ _, List.prefix_rfl⟩
  | push i line => exact ⟨List.prefix_rfl, List.prefix_append _ _⟩
  | finalize =>
    rw [apply]
    by_cases hu : u.EndsInHalt
    · refine ⟨u.symbols_finalize ▸ List.prefix_rfl, ?_⟩
      rw [lines_finalize hu]
      exact List.prefix_append _ _
    · rw [CodeUnit.finalize, if_neg hu]
      exact .refl u

/-- At every later moment the unit extends what it was. -/
theorem extends_ofEdits (earlier later : List Edit) :
    (ofEdits earlier).Extends (ofEdits (earlier ++ later)) := by
  induction later using List.reverseRecOn with
  | nil =>
    rw [List.append_nil]
    exact .refl _
  | append_singleton later edit ih =>
    rw [← List.append_assoc, ofEdits_concat]
    exact ih.trans (edit.extends _)

/-! ### What an edit keeps in order -/

/-- No symbol stands twice in the table, and every instruction has a line. -/
structure Tidy (u : CodeUnit) : Prop where
  distinct : u.symbols.Nodup
  lines : u.lines.length = u.instructions.length

theorem tidy_empty : Tidy {} := ⟨List.nodup_nil, rfl⟩

/-- One instruction more than before: the last one becomes two. -/
theorem length_instructions_finalize (hu : u.EndsInHalt) :
    u.finalize.instructions.length = u.instructions.length + 1 := by
  have hpositive := hu.length_pos
  rw [instructions_finalize hu, List.length_append, List.length_dropLast, List.length_cons,
    List.length_singleton]
  omega

theorem Tidy.apply (h : u.Tidy) (edit : Edit) : (edit.apply u).Tidy := by
  cases edit with
  | intern symbol =>
    obtain ⟨new, index, hintern, -⟩ := u.intern_eq symbol
    refine ⟨nodup_intern h.distinct symbol, ?_⟩
    rw [Edit.apply, hintern]
    exact h.lines
  | push i line =>
    refine ⟨h.distinct, ?_⟩
    rw [Edit.apply, push, List.length_append, List.length_append, h.lines]
    rfl
  | finalize =>
    refine ⟨u.symbols_finalize.symm ▸ h.distinct, ?_⟩
    rw [Edit.apply]
    by_cases hu : u.EndsInHalt
    · rw [lines_finalize hu, List.length_append, length_instructions_finalize hu, h.lines]
      rfl
    · rw [CodeUnit.finalize, if_neg hu]
      exact h.lines

theorem tidy_ofEdits (edits : List Edit) : (ofEdits edits).Tidy := by
  induction edits using List.reverseRecOn with
  | nil => exact tidy_empty
  | append_singleton edits edit ih =>
    rw [ofEdits_concat]
    exact ih.apply edit

/-- The added instruction has the line of the one before it. -/
theorem Tidy.lineAt_finalize (h : u.Tidy) (hu : u.EndsInHalt) :
    u.finalize.lineAt u.instructions.length
      = u.finalize.lineAt (u.instructions.length - 1) := by
  have hpositive := hu.length_pos
  have hlast : u.instructions.length - 1 < u.lines.length := by
    rw [h.lines]
    omega
  rw [CodeUnit.lineAt, CodeUnit.lineAt, lines_finalize hu, List.getElem?_append_left hlast,
    ← h.lines, List.getElem?_concat_length, List.getLast?_eq_getElem?]
  rfl

/-! ### Indices -/

/-- One of the edits interns the symbol and is answered with the index. -/
def Interns (edits : List Edit) (symbol : String) (index : Nat) : Prop :=
  ∃ before behind, edits = before ++ .intern symbol :: behind
    ∧ ((ofEdits before).intern symbol).2 = index

theorem getElem?_of_interns {symbol : String} {index : Nat} (h : Interns edits symbol index) :
    (ofEdits edits).symbols[index]? = some symbol := by
  obtain ⟨before, behind, rfl, rfl⟩ := h
  obtain ⟨new, index, hintern, hget, -⟩ := (ofEdits before).intern_eq symbol
  have hextends := extends_ofEdits (before ++ [.intern symbol]) behind
  rw [ofEdits_concat, Edit.apply, List.append_assoc] at hextends
  rw [hintern] at hextends ⊢
  exact hextends.symbol hget

/-- Indices are alike if and only if the symbols are. -/
theorem index_eq_iff {s t : String} {i j : Nat} (hs : Interns edits s i) (ht : Interns edits t j) :
    i = j ↔ s = t := by
  have hi := getElem?_of_interns hs
  have hj := getElem?_of_interns ht
  constructor
  · rintro rfl
    exact Option.some.inj (hi.symm.trans hj)
  · rintro rfl
    have hlt := (List.getElem?_eq_some_iff.1 hi).1
    exact (List.getElem?_inj hlt (tidy_ofEdits edits).distinct).1 (hi.trans hj.symm)

/-! ### Whole rows of edits -/

structure Chronicled (edits : List Edit) : Prop extends Tidy (ofEdits edits) where
  /-- An index that was handed out names its symbol, as does the immediate that is this index. -/
  symbols : ∀ symbol index, Interns edits symbol index →
    (ofEdits edits).symbols[index]? = some symbol
      ∧ ∀ imm : Int32, imm.toInt = index → (ofEdits edits).symbol? imm = some symbol
  /-- The same index is handed out for the same symbol only. -/
  indices : ∀ s t i j, Interns edits s i → Interns edits t j → (i = j ↔ s = t)
  /-- As long as every index is an immediate, words of 32 bits hold the indices. -/
  words : (ofEdits edits).symbols.length ≤ 0x80000000 →
    ∀ symbol index, Interns edits symbol index → (UInt32.ofNat index).toNat = index
      ∧ (ofEdits edits).symbol? (UInt32.ofNat index).toInt32 = some symbol
  /-- An instruction that is there keeps its line. -/
  lineAt : ∀ earlier later, edits = earlier ++ later →
    ∀ position < (ofEdits earlier).instructions.length,
      (ofEdits edits).lineAt position = (ofEdits earlier).lineAt position
  /-- If a halt is finalized, one instruction is added, with the line of the one before it. -/
  finalized : ∀ earlier later, edits = earlier ++ .finalize :: later →
    (ofEdits earlier).EndsInHalt →
      (ofEdits (earlier ++ [.finalize])).instructions.length
          = (ofEdits earlier).instructions.length + 1
        ∧ (ofEdits edits).lineAt (ofEdits earlier).instructions.length
          = (ofEdits edits).lineAt ((ofEdits earlier).instructions.length - 1)

/-- Existing instructions keep their lines, whatever edits come later. -/
theorem lineAt_ofEdits_append {position : Nat}
    (h : position < (ofEdits earlier).instructions.length) :
    (ofEdits (earlier ++ later)).lineAt position = (ofEdits earlier).lineAt position :=
  (extends_ofEdits earlier later).lineAt ((tidy_ofEdits earlier).lines.symm ▸ h)

theorem length_ofEdits_finalize (h : (ofEdits earlier).EndsInHalt) :
    (ofEdits (earlier ++ [.finalize])).instructions.length
      = (ofEdits earlier).instructions.length + 1 := by
  rw [ofEdits_concat]
  exact length_instructions_finalize h

/-- The line of the instruction that was added is still that of the one before it. -/
theorem lineAt_ofEdits_finalize (h : (ofEdits earlier).EndsInHalt) :
    (ofEdits (earlier ++ .finalize :: later)).lineAt (ofEdits earlier).instructions.length
      = (ofEdits (earlier ++ .finalize :: later)).lineAt
          ((ofEdits earlier).instructions.length - 1) := by
  have hlength := length_ofEdits_finalize h
  have hadded : (ofEdits earlier).instructions.length
      < (ofEdits (earlier ++ [.finalize])).instructions.length := by omega
  have hbefore : (ofEdits earlier).instructions.length - 1
      < (ofEdits (earlier ++ [.finalize])).instructions.length := by omega
  rw [List.append_cons earlier, lineAt_ofEdits_append hadded, lineAt_ofEdits_append hbefore,
    ofEdits_concat]
  exact (tidy_ofEdits earlier).lineAt_finalize h

/-- Whatever is done to a unit from the beginning: the symbols are distinct and stay where they are,
so an index stands for one symbol for good, and every instruction has a line and keeps it. -/
theorem edits_chronicled (edits : List Edit) : Chronicled edits where
  toTidy := tidy_ofEdits edits
  symbols symbol index h :=
    ⟨getElem?_of_interns h, fun _ himm => symbol?_of_toInt_eq (getElem?_of_interns h) himm⟩
  indices s t i j hs ht := index_eq_iff hs ht
  words hfew symbol index h := by
    have hget := getElem?_of_interns h
    have hlt : index < 0x80000000 :=
      Nat.lt_of_lt_of_le (List.getElem?_eq_some_iff.1 hget).1 hfew
    refine ⟨UInt32.toNat_ofNat_of_lt' (Nat.lt_trans hlt (by decide)), ?_⟩
    rw [UInt32.toInt32_ofNat']
    exact symbol?_ofNat hget hlt
  lineAt := by
    rintro earlier later rfl position hposition
    exact lineAt_ofEdits_append hposition
  finalized := by
    rintro earlier later rfl hhalt
    exact ⟨length_ofEdits_finalize hhalt, lineAt_ofEdits_finalize hhalt⟩

/-- A symbol that is interned again is still named by its index, and the `ret` that is added has the
line of the halt. -/
theorem edits_chronicled_again :
    let edits : List Edit := [.intern "a", .push { opcode := .loadStr } 3, .intern "b",
      .push { opcode := .halt } 4, .finalize, .intern "a"]
    Interns edits "a" 0 ∧ Interns edits "b" 1 ∧ (ofEdits edits).symbol? 0 = some "a"
      ∧ (ofEdits edits).lineAt 2 = 4 := by
  intro edits
  have hchronicled := edits_chronicled edits
  have ha : Interns edits "a" 0 := ⟨[], _, rfl, by decide⟩
  have hb : Interns edits "b" 1 :=
    ⟨[.intern "a", .push { opcode := .loadStr } 3], _, rfl, by decide⟩
  refine ⟨ha, hb, (hchronicled.symbols "a" 0 ha).2 0 rfl, ?_⟩
  have hline := (hchronicled.finalized [.intern "a", .push { opcode := .loadStr } 3, .intern "b",
    .push { opcode := .halt } 4] [.intern "a"] rfl (by decide)).2
  exact hline.trans (by decide)

end ModuleHost.CodeUnit
