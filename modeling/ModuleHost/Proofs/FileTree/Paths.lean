import ModuleHost.FileTree.Basic
import ModuleHost.ModuleKind
import Mathlib.Data.List.TakeWhile

/-!
# Paths made of names

The path of a location is taken apart into the very names that it was made of, if these are such as
a file tree can have.  The extension of a file is what stands behind the last dot of its name.
-/

namespace ModuleHost

/-- A name that an entry of a file tree can have. -/
structure Path.IsName (name : String) : Prop where
  notIdle : Path.isIdle name = false
  notParent : name ≠ ".."
  noSlash : '/' ∉ name.toList
  noNul : '\x00' ∉ name.toList
  short : name.utf8ByteSize ≤ FileTree.maxNameBytes

namespace Path

/-- A piece that is made of more than dots leads to an entry of that name. -/
theorem isIdle_of_mem {s : String} {c : Char} (hc : c ∈ s.toList) (hdot : c ≠ '.') :
    isIdle s = false ∧ s ≠ ".." := by
  have hne : ∀ t : String, (∀ d ∈ t.toList, d = '.') → s ≠ t := by
    rintro t ht rfl
    exact hdot (ht c hc)
  refine ⟨?_, hne ".." (by simp)⟩
  rw [isIdle, decide_eq_false (hne "" (by simp)), decide_eq_false (hne "." (by simp))]
  rfl

/-! ### Pieces -/

theorem pieces_of_noSlash {s : String} (h : '/' ∉ s.toList) : pieces s = [s] := by
  rw [pieces, List.splitOn_eq_singleton h, List.map_singleton, String.ofList_toList]

theorem pieces_append_slash (a b : String) : pieces (a ++ "/" ++ b) = pieces a ++ pieces b := by
  have htext : (a ++ "/" ++ b).toList = a.toList ++ '/' :: b.toList := by simp
  rw [pieces, htext, List.splitOn_append_cons_self, List.map_append]
  rfl

/-- The piece behind the last slash ends the way the path ends. -/
theorem exists_pieces_of_noSlash (a : String) :
    ∃ before start, ∀ b : String, '/' ∉ b.toList → pieces (a ++ b) = before ++ [start ++ b] := by
  by_cases ha : '/' ∈ a.toList
  · obtain ⟨xs, ys, hxs, hys⟩ := List.eq_append_cons_of_mem (List.mem_reverse.2 ha)
    refine ⟨(ys.reverse.splitOn '/').map String.ofList, String.ofList xs.reverse, fun b h => ?_⟩
    have htext : (a ++ b).toList = ys.reverse ++ '/' :: (xs.reverse ++ b.toList) := by
      have hrev := congrArg List.reverse hxs
      rw [List.reverse_reverse] at hrev
      simp [hrev]
    have hnot : '/' ∉ xs.reverse ++ b.toList := by
      rw [List.mem_append, List.mem_reverse]
      exact not_or.2 ⟨hys, h⟩
    rw [pieces, htext, List.splitOn_append_cons_self, List.map_append,
      List.splitOn_eq_singleton hnot, List.map_singleton, String.ofList_append,
      String.ofList_toList]
  · refine ⟨[], a, fun b h => ?_⟩
    have hnot : '/' ∉ (a ++ b).toList := by
      rw [String.toList_append, List.mem_append]
      exact not_or.2 ⟨ha, h⟩
    rw [pieces_of_noSlash hnot, List.nil_append]

theorem pieces_path {l : Location} (h : ∀ name ∈ l, '/' ∉ name.toList) (hl : l ≠ []) :
    pieces l.path = "" :: l := by
  have htext : l.path.toList = ['/'].intercalate ([] :: l.map String.toList) := by
    rw [Location.path, List.intercalate_cons_of_ne_nil (by simpa using hl)]
    simp
  rw [pieces, htext, List.splitOn_intercalate]
  · simp
  · intro cs hcs
    rcases List.mem_cons.1 hcs with rfl | hcs
    · exact List.not_mem_nil
    · obtain ⟨name, hn, rfl⟩ := List.mem_map.1 hcs
      exact h name hn
  · simp

theorem isEmpty_path (l : Location) : l.path.isEmpty = false := by
  simp [Location.path]

theorem noNul_path {l : Location} (h : ∀ name ∈ l, '\x00' ∉ name.toList) :
    '\x00' ∉ l.path.toList := by
  rw [Location.path, String.toList_append, List.mem_append, not_or]
  refine ⟨by decide, ?_⟩
  induction l with
  | nil => rw [String.intercalate_nil]; decide
  | cons name l ih =>
    have hname := h name List.mem_cons_self
    by_cases hl : l = []
    · rwa [hl, String.intercalate_singleton]
    · have hrest := ih fun other ho => h other (List.mem_cons_of_mem _ ho)
      rw [String.intercalate_cons_of_ne_nil hl, String.toList_append, String.toList_append,
        List.mem_append, List.mem_append]
      rintro ((hm | hm) | hm)
      · exact hname hm
      · exact absurd hm (by decide)
      · exact hrest hm

theorem path_singleton (name : String) : Location.path [name] = "/" ++ name := by
  rw [Location.path, String.intercalate_singleton]

theorem path_concat (l : Location) :
    ∃ start, ∀ name, Location.path (l ++ [name]) = start ++ name := by
  by_cases hl : l = []
  · refine ⟨"/", fun name => ?_⟩
    rw [hl, List.nil_append, path_singleton]
  · refine ⟨"/" ++ String.intercalate "/" l ++ "/", fun name => ?_⟩
    rw [Location.path, String.intercalate_append_of_ne_nil hl (by simp),
      String.intercalate_singleton]
    simp only [String.append_assoc]

/-- What is in the root has a path that is short enough. -/
theorem utf8ByteSize_path_singleton {name : String} (h : IsName name) :
    (Location.path [name]).utf8ByteSize < FileTree.pathByteLimit := by
  have hshort := h.short
  have hslash : "/".utf8ByteSize = 1 := by decide
  rw [FileTree.maxNameBytes] at hshort
  rw [path_singleton, String.utf8ByteSize_append, hslash, FileTree.pathByteLimit]
  omega

theorem isAbsolute_path (l : Location) : isAbsolute l.path = true := by
  simp [isAbsolute, Location.path]

theorem isAbsolute_append {a : String} (ha : a ≠ "") (b : String) :
    isAbsolute (a ++ b) = isAbsolute a := by
  rw [isAbsolute, isAbsolute, String.toList_append, List.head?_append]
  cases hcs : a.toList with
  | nil => exact absurd (String.toList_inj.1 hcs) ha
  | cons c cs => rfl

/-! ### Extensions -/

theorem fileName?_of_pieces {path name : String} {before : List String}
    (h : pieces path = before ++ [name]) (hidle : isIdle name = false) (hup : name ≠ "..") :
    fileName? path = some name := by
  have hleading : leadingPieces path = before ++ [name] := by
    rw [leadingPieces, h, List.reverse_append, List.reverse_singleton, List.singleton_append,
      List.dropWhile_cons_of_neg (by rw [hidle]; decide), List.reverse_cons, List.reverse_reverse]
  rw [fileName?, hleading, List.getLast?_concat, Option.filter_some, decide_eq_true hup]
  rfl

theorem cutAtLastDot?_of_noDot {name : String} (h : '.' ∉ name.toList) :
    cutAtLastDot? name = none := by
  have hdrop : name.toList.reverse.dropWhile (fun c => decide (c ≠ '.')) = [] := by
    rw [List.dropWhile_eq_nil_iff]
    intro c hc
    exact decide_eq_true fun he => h (he ▸ List.mem_reverse.1 hc)
  rw [cutAtLastDot?, hdrop]

theorem cutAtLastDot?_append_dot {stem extension : String} (hs : stem ≠ "")
    (he : '.' ∉ extension.toList) :
    cutAtLastDot? (stem ++ "." ++ extension) = some (stem, extension) := by
  have htext : (stem ++ "." ++ extension).toList.reverse
      = extension.toList.reverse ++ '.' :: stem.toList.reverse := by simp
  have hall : ∀ c ∈ extension.toList.reverse, decide (c ≠ '.') = true := by
    intro c hc
    exact decide_eq_true fun h => he (h ▸ List.mem_reverse.1 hc)
  rw [cutAtLastDot?, htext, List.dropWhile_append_of_pos hall,
    List.dropWhile_cons_of_neg (by decide), List.takeWhile_append_of_pos hall,
    List.takeWhile_cons_of_neg (by decide), List.append_nil]
  simp [hs]

end Path

end ModuleHost
