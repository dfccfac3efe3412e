import ModuleHost.Proofs.Text.Delimited
import ModuleHost.SearchPath
import Mathlib.Data.List.Basic

/-!
# Directories in a variable

The value of a variable holds the directories of a search path between separators.  A directory is
a piece of the value without a separator that is not empty and reaches as far as it can
(`MaximalPiece`); the directories of a value are these pieces in the order in which they stand
there (`exists_located`), so separators in front, behind and in a row count for nothing.  Values
that are put together with a separator hold the directories of both.
-/

namespace ModuleHost.SearchPath

variable {cs word rest piece : List Char} {start : Nat}

/-- Behind the first `start` characters of `cs` stands `piece`, which is not empty and holds no
separator, and only separators stand next to it. -/
def MaximalPiece (cs : List Char) (start : Nat) (piece : List Char) : Prop :=
  piece ≠ [] ∧ separator ∉ piece ∧ ∃ before after, cs = before ++ (piece ++ after)
    ∧ before.length = start ∧ (∀ c ∈ before.getLast?, c = separator)
    ∧ ∀ c ∈ after.head?, c = separator

def wordsOf (cs : List Char) : List (List Char) := (cs.splitOn separator).filter (!·.isEmpty)

theorem dirs_ofValue (value : String) :
    (ofValue value).dirs = (wordsOf value.toList).map String.ofList := rfl

/-! ### Up to the first separator -/

theorem wordsOf_of_notMem (h : separator ∉ word) :
    wordsOf word = if word = [] then [] else [word] := by
  rw [wordsOf, List.splitOn_eq_singleton h]
  by_cases hword : word = []
  · simp [hword]
  · simp [hword]

theorem wordsOf_append (cs₁ cs₂ : List Char) :
    wordsOf (cs₁ ++ separator :: cs₂) = wordsOf cs₁ ++ wordsOf cs₂ := by
  rw [wordsOf, List.splitOn_append_cons_self, List.filter_append]
  rfl

/-- Nothing stands before a piece that has no separator before it. -/
theorem eq_nil_of_getLast? {before : List Char} (h : separator ∉ before)
    (hlast : ∀ c ∈ before.getLast?, c = separator) : before = [] := by
  rcases List.eq_nil_or_concat' before with hnil | ⟨init, c, rfl⟩
  · exact hnil
  · have hc := hlast c (by simp)
    simp [hc] at h

/-- Text without a separator is a maximal piece of itself, if it is not empty, and has no other
one. -/
theorem maximalPiece_iff_of_notMem (h : separator ∉ word) :
    MaximalPiece word start piece ↔ word ≠ [] ∧ start = 0 ∧ piece = word := by
  constructor
  · rintro ⟨hne, -, before, after, rfl, rfl, hbefore, hafter⟩
    simp only [List.mem_append, not_or] at h
    obtain rfl := eq_nil_of_getLast? h.1 hbefore
    cases after with
    | nil => simpa using hne
    | cons c after =>
      have hc := hafter c rfl
      simp [hc] at h
  · rintro ⟨hne, rfl, rfl⟩
    exact ⟨hne, h, [], [], by simp⟩

/-- The maximal pieces of a text are what stands before its first separator and the maximal pieces
behind it. -/
theorem maximalPiece_append_iff (h : separator ∉ word) :
    MaximalPiece (word ++ separator :: rest) start piece
      ↔ MaximalPiece word start piece
        ∨ ∃ k, start = word.length + 1 + k ∧ MaximalPiece rest k piece := by
  have hword : ∀ c ∈ word, c ≠ separator := by
    rintro c hc rfl
    exact h hc
  constructor
  · rintro ⟨hne, hnot, before, after, heq, rfl, hbefore, hafter⟩
    by_cases hmem : separator ∈ before
    · -- the first separator stands before the piece
      right
      obtain ⟨word', before, rfl, hword'⟩ := List.eq_append_cons_of_mem hmem
      rw [List.append_assoc, List.cons_append] at heq
      obtain ⟨rfl, -, rfl⟩ := Text.append_cons_inj hword
        (fun c hc hs => hword' (hs ▸ hc)) (not_not_intro rfl) (not_not_intro rfl) heq
      refine ⟨before.length, by simp; omega, hne, hnot, before, after, rfl, rfl, ?_, hafter⟩
      intro c hc
      apply hbefore
      rw [List.getLast?_append, List.getLast?_cons, Option.mem_def.1 hc]
      rfl
    · -- the piece begins where the text does, so it is the word before the first separator
      left
      obtain rfl := eq_nil_of_getLast? hmem hbefore
      rw [maximalPiece_iff_of_notMem h]
      cases after with
      | nil =>
        refine absurd ?_ hnot
        simp only [List.nil_append, List.append_nil] at heq
        simp [← heq]
      | cons c after =>
        obtain rfl := hafter c rfl
        obtain ⟨rfl, -⟩ := Text.append_cons_inj hword
          (fun c hc hs => hnot (hs ▸ hc)) (not_not_intro rfl) (not_not_intro rfl) heq
        exact ⟨hne, rfl, rfl⟩
  · rintro (hpiece | ⟨k, rfl, hne, hnot, before, after, rfl, rfl, hbefore, hafter⟩)
    · obtain ⟨hne, rfl, rfl⟩ := (maximalPiece_iff_of_notMem h).1 hpiece
      exact ⟨hne, h, [], separator :: rest, by simp⟩
    · refine ⟨hne, hnot, word ++ separator :: before, after, by simp, by simp; omega, ?_, hafter⟩
      intro c hc
      rw [List.getLast?_append, List.getLast?_cons] at hc
      cases hlast : before.getLast? with
      | none => simpa [hlast, eq_comm] using hc
      | some d =>
        simp only [hlast, Option.getD_some, Option.some_or, Option.mem_some] at hc
        exact hc ▸ hbefore d hlast

/-- The pieces between separators that are not empty are the maximal pieces, in order. -/
theorem exists_located (cs : List Char) :
    ∃ located : List (Nat × List Char), located.Pairwise (·.1 < ·.1)
      ∧ (∀ start piece, (start, piece) ∈ located ↔ MaximalPiece cs start piece)
      ∧ wordsOf cs = located.map (·.2) := by
  by_cases hmem : separator ∈ cs
  · -- the pieces behind the first separator are moved by what stands before it
    obtain ⟨word, rest, rfl, hword⟩ := List.eq_append_cons_of_mem hmem
    obtain ⟨first, hfirst, hpiece, hwords⟩ := exists_located word
    obtain ⟨others, hothers, hpieces, hwords'⟩ := exists_located rest
    refine ⟨first ++ others.map fun located => (word.length + 1 + located.1, located.2), ?_, ?_, ?_⟩
    · rw [List.pairwise_append]
      refine ⟨hfirst, hothers.map _ fun _ _ h => Nat.add_lt_add_left h _, ?_⟩
      rintro ⟨start, piece⟩ hlocated other hother
      obtain ⟨⟨k, piece'⟩, -, rfl⟩ := List.mem_map.1 hother
      obtain ⟨-, rfl, -⟩ := (maximalPiece_iff_of_notMem hword).1 ((hpiece _ _).1 hlocated)
      simp only
      omega
    · intro start piece
      rw [maximalPiece_append_iff hword, List.mem_append, List.mem_map, hpiece]
      refine or_congr Iff.rfl ⟨?_, ?_⟩
      · rintro ⟨⟨k, piece'⟩, hlocated, heq⟩
        obtain ⟨rfl, rfl⟩ := Prod.mk.inj heq
        exact ⟨k, rfl, (hpieces _ _).1 hlocated⟩
      · rintro ⟨k, rfl, hrest⟩
        exact ⟨(k, piece), (hpieces _ _).2 hrest, rfl⟩
    · rw [wordsOf_append, List.map_append, List.map_map, hwords, hwords']
      rfl
  · refine ⟨if cs = [] then [] else [(0, cs)], ?_, ?_, ?_⟩
    · split <;> simp
    · intro start piece
      rw [maximalPiece_iff_of_notMem hmem]
      split <;> simp_all
    · rw [wordsOf_of_notMem hmem]
      split <;> rfl
termination_by cs.length

/-! ### Values put together -/

theorem ofValue_append (v₁ v₂ : String) :
    ofValue (v₁ ++ ":" ++ v₂) = (ofValue v₁).extend (ofValue v₂).dirs := by
  have htext : (v₁ ++ ":" ++ v₂).toList = v₁.toList ++ separator :: v₂.toList := by
    simp [separator]
  have hdirs : (ofValue (v₁ ++ ":" ++ v₂)).dirs = (ofValue v₁).dirs ++ (ofValue v₂).dirs := by
    rw [dirs_ofValue, dirs_ofValue, dirs_ofValue, htext, wordsOf_append, List.map_append]
  exact congrArg SearchPath.mk hdirs

theorem ofValue_of_notMem {dir : String} (hne : dir ≠ "") (h : separator ∉ dir.toList) :
    ofValue dir = { dirs := [dir] } := by
  have hdirs : (ofValue dir).dirs = [dir] := by
    rw [dirs_ofValue, wordsOf_of_notMem h, if_neg (by simpa using hne), List.map_singleton,
      String.ofList_toList]
  exact congrArg SearchPath.mk hdirs

/-- Directories that are joined by separators are found again. -/
theorem ofValue_intercalate {dirs : List String}
    (h : ∀ dir ∈ dirs, dir ≠ "" ∧ separator ∉ dir.toList) :
    ofValue (String.intercalate ":" dirs) = { dirs } := by
  induction dirs with
  | nil => rw [String.intercalate_nil]; rfl
  | cons dir dirs ih =>
    obtain ⟨hne, hdir⟩ := h dir List.mem_cons_self
    have hrest := ih fun other ho => h other (List.mem_cons_of_mem dir ho)
    by_cases hdirs : dirs = []
    · rw [hdirs, String.intercalate_singleton, ofValue_of_notMem hne hdir]
    · rw [String.intercalate_cons_of_ne_nil hdirs, ofValue_append, hrest,
        ofValue_of_notMem hne hdir]
      rfl

end ModuleHost.SearchPath
