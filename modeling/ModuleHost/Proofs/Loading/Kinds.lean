import ModuleHost.Proofs.FileTree.Leads
import ModuleHost.Proofs.Loading.SearchOrder

/-!
# The kinds of modules that are found

A name without an extension is tried with the suffix of each kind, but the kind of what is found is
read off the name of the file itself, all links being followed.  The two agree if the name has a
last piece, before which the suffix does not stand alone, and if the candidate is not itself a
symbolic link (`ofPath_of_foundThrough`).
-/

namespace ModuleHost

/-! ### Names of files -/

namespace Path

variable {name stem extension : String}

theorem eq_of_cutAtLastDot? (h : cutAtLastDot? name = some (stem, extension)) :
    stem ≠ "" ∧ name = stem ++ "." ++ extension := by
  rw [cutAtLastDot?] at h
  have hsplit := List.takeWhile_append_dropWhile (p := fun c => decide (c ≠ '.'))
    (l := name.toList.reverse)
  have hdot := List.head?_dropWhile_not (fun c => decide (c ≠ '.')) name.toList.reverse
  generalize name.toList.reverse.takeWhile (fun c => decide (c ≠ '.')) = after at h hsplit
  generalize name.toList.reverse.dropWhile (fun c => decide (c ≠ '.')) = rest at h hsplit hdot
  cases rest with
  | nil => cases h
  | cons c before =>
    dsimp only at h
    split at h
    · cases h
    · next hbefore =>
      cases h
      obtain rfl : c = '.' := by simpa using hdot
      have hname : name.toList = before.reverse ++ '.' :: after.reverse := by
        rw [← List.reverse_reverse name.toList, ← hsplit]
        simp
      refine ⟨?_, ?_⟩
      · rw [ne_eq, String.ofList_eq_empty_iff]
        simpa using hbefore
      · rw [← String.toList_inj, hname]
        simp

theorem not_mem_of_mem_splitOn {cs : List Char} {piece : List Char}
    (h : piece ∈ cs.splitOn '/') : '/' ∉ piece := by
  induction hn : cs.length using Nat.strong_induction_on generalizing cs with
  | _ n ih =>
    by_cases hslash : '/' ∈ cs
    · obtain ⟨before, after, rfl, hbefore⟩ := List.eq_append_cons_of_mem hslash
      rw [List.splitOn_append_cons_self, List.splitOn_eq_singleton hbefore,
        List.singleton_append] at h
      rcases List.mem_cons.1 h with rfl | h
      · exact hbefore
      · refine ih after.length ?_ h rfl
        rw [← hn, List.length_append, List.length_cons]
        omega
    · rw [List.splitOn_eq_singleton hslash, List.mem_singleton] at h
      exact h ▸ hslash

theorem noSlash_of_mem_pieces {path piece : String} (h : piece ∈ pieces path) :
    '/' ∉ piece.toList := by
  obtain ⟨cs, hcs, rfl⟩ := List.mem_map.1 h
  rw [String.toList_ofList]
  exact not_mem_of_mem_splitOn hcs

/-- The last name of a path of a location. -/
theorem exists_pieces_path (directory : Location) {file : String} (h : '/' ∉ file.toList) :
    ∃ before, pieces (Location.path (directory ++ [file])) = before ++ [file] := by
  by_cases hd : directory = []
  · refine ⟨[""], ?_⟩
    rw [hd, List.nil_append, path_singleton, ← String.empty_append (s := "/"),
      pieces_append_slash, pieces_of_noSlash h]
    rfl
  · refine ⟨pieces ("/" ++ String.intercalate "/" directory), ?_⟩
    have hpath : Location.path (directory ++ [file])
        = "/" ++ String.intercalate "/" directory ++ "/" ++ file := by
      rw [Location.path, String.intercalate_append_of_ne_nil hd (by simp),
        String.intercalate_singleton]
      simp only [String.append_assoc]
    rw [hpath, pieces_append_slash, pieces_of_noSlash h]

/-- What is put behind a path that goes on behind its last slash becomes part of its last name. -/
theorem exists_pieces_append {path : String} (hne : path ≠ "")
    (hlast : path.toList.getLast? ≠ some '/') : ∃ before stem, stem ≠ "" ∧
      ∀ b : String, '/' ∉ b.toList → pieces (path ++ b) = before ++ [stem ++ b] := by
  obtain ⟨front, c, hpath⟩ : ∃ front c, path.toList = front ++ [c] := by
    rcases List.eq_nil_or_concat' path.toList with hnil | hconcat
    · exact absurd (String.toList_inj.1 hnil) hne
    · exact hconcat
  rw [hpath, List.getLast?_concat, ne_eq, Option.some.injEq] at hlast
  obtain ⟨before, start, hpieces⟩ := exists_pieces_of_noSlash (String.ofList front)
  refine ⟨before, start ++ String.ofList [c], ?_, fun b hb => ?_⟩
  · intro hempty
    have hlength := congrArg (fun s : String => s.toList.length) hempty
    simp at hlength
  · have htext : path ++ b = String.ofList front ++ (String.ofList [c] ++ b) := by
      rw [← String.toList_inj]
      simp [hpath]
    rw [htext, hpieces, String.append_assoc]
    rw [String.toList_append, List.mem_append, String.toList_ofList, List.mem_singleton]
    exact not_or.2 ⟨Ne.symm hlast, hb⟩

end Path

namespace ModuleKind

variable {path file : String} {before : List String} {k : ModuleKind}

theorem ofPath_eq_ok_iff : ofPath path = .ok k ↔ Path.extension? path = some k.extension := by
  rw [ofPath]
  cases Path.extension? path with
  | none => simp
  | some e =>
    by_cases hfound : ∃ kind : ModuleKind, kind.extension = e
    · obtain ⟨kind, rfl⟩ := hfound
      cases kind <;> cases k <;> decide
    · have hnone : all.find? (·.extension = e) = none := by
        rw [List.find?_eq_none]
        intro kind _ heq
        exact hfound ⟨kind, of_decide_eq_true heq⟩
      dsimp only
      rw [hnone]
      simp only [reduceCtorEq, Option.some.injEq, false_iff]
      exact fun heq => hfound ⟨k, heq.symm⟩

theorem noDot_extension (k : ModuleKind) : '.' ∉ k.extension.toList := by
  cases k <;> decide

theorem noSlash_suffix (k : ModuleKind) : '/' ∉ k.suffix.toList := by
  cases k <;> decide

/-- The kind of a file is read off its name: a stem with the suffix of the kind. -/
theorem ofPath_of_pieces (h : Path.pieces path = before ++ [file])
    (hidle : Path.isIdle file = false) (hup : file ≠ "..") :
    ofPath path = .ok k ↔ ∃ stem, stem ≠ "" ∧ file = stem ++ k.suffix := by
  rw [ofPath_eq_ok_iff, Path.extension?, Path.fileName?_of_pieces h hidle hup, Option.bind_some,
    Option.map_eq_some_iff]
  constructor
  · rintro ⟨⟨stem, e⟩, hcut, rfl⟩
    obtain ⟨hstem, hfile⟩ := Path.eq_of_cutAtLastDot? hcut
    exact ⟨stem, hstem, by rw [hfile, suffix, String.append_assoc]⟩
  · rintro ⟨stem, hstem, rfl⟩
    refine ⟨(stem, k.extension), ?_, rfl⟩
    rw [suffix, ← String.append_assoc]
    exact Path.cutAtLastDot?_append_dot hstem k.noDot_extension

/-- A name with the suffix of a kind leads to an entry of that name. -/
theorem isIdle_append_suffix (stem : String) (k : ModuleKind) :
    Path.isIdle (stem ++ k.suffix) = false ∧ stem ++ k.suffix ≠ ".." := by
  obtain ⟨c, hc, hdot⟩ : ∃ c ∈ k.suffix.toList, c ≠ '.' := by
    cases k with
    | compiled | source => exact ⟨'n', by decide, by decide⟩
    | native => exact ⟨'s', by decide, by decide⟩
  refine Path.isIdle_of_mem ?_ hdot
  rw [String.toList_append]
  exact List.mem_append_right _ hc

end ModuleKind

/-! ### Links at the end of a path -/

namespace FileTree

variable {t : FileTree} {cwd here l : Location} {path name : String}
  {before after pieces : List String}

def NamesLink (t : FileTree) (cwd : Location) (path : String) : Prop :=
  ∃ before name directory target, Path.pieces path = before ++ [name]
    ∧ t.Leads directory (if Path.isAbsolute path then [] else cwd) before
    ∧ t.entryAt? (directory ++ [name]) = some (.link target)

/-- The pieces of two paths put together lead along the first path and then along the second. -/
theorem Leads.split (h : t.Leads l here (before ++ after)) :
    ∃ middle, t.Leads middle here before ∧ t.Leads l middle after := by
  generalize hpieces : before ++ after = pieces at h
  induction h generalizing before with
  | nil =>
    obtain ⟨rfl, rfl⟩ := List.append_eq_nil_iff.1 hpieces
    exact ⟨l, .nil, .nil⟩
  | @idle here piece rest hd hi h ih =>
    obtain ⟨rfl, rfl⟩ | ⟨before, rfl, rfl⟩ := List.append_eq_cons_iff.1 hpieces
    · exact ⟨here, .nil, .idle hd hi h⟩
    · obtain ⟨middle, hfirst, hsecond⟩ := ih rfl
      exact ⟨middle, .idle hd hi hfirst, hsecond⟩
  | @parent here rest hd h ih =>
    obtain ⟨rfl, rfl⟩ | ⟨before, rfl, rfl⟩ := List.append_eq_cons_iff.1 hpieces
    · exact ⟨here, .nil, .parent hd h⟩
    · obtain ⟨middle, hfirst, hsecond⟩ := ih rfl
      exact ⟨middle, .parent hd hfirst, hsecond⟩
  | @link here piece target rest hd hi hp he h ih =>
    obtain ⟨rfl, rfl⟩ | ⟨before, rfl, rfl⟩ := List.append_eq_cons_iff.1 hpieces
    · exact ⟨here, .nil, .link hd hi hp he h⟩
    · obtain ⟨middle, hfirst, hsecond⟩ := ih (List.append_assoc (Path.pieces target) before after)
      exact ⟨middle, .link hd hi hp he hfirst, hsecond⟩
  | @entry here piece rest e hd hi hp hl he h ih =>
    obtain ⟨rfl, rfl⟩ | ⟨before, rfl, rfl⟩ := List.append_eq_cons_iff.1 hpieces
    · exact ⟨here, .nil, .entry hd hi hp hl he h⟩
    · obtain ⟨middle, hfirst, hsecond⟩ := ih rfl
      exact ⟨middle, .entry hd hi hp hl he hfirst, hsecond⟩

/-- What a path leads to keeps the last name of the path, unless that is the name of a link. -/
theorem LeadsTo.exists_eq_concat (h : t.LeadsTo cwd path l)
    (hpieces : Path.pieces path = before ++ [name]) (hidle : Path.isIdle name = false)
    (hup : name ≠ "..") (hlink : ¬ t.NamesLink cwd path) :
    ∃ directory, l = directory ++ [name] := by
  have hleads := h.2.2
  rw [hpieces] at hleads
  obtain ⟨directory, hdirectory, hlast⟩ := hleads.split
  cases hlast with
  | idle _ hi => rw [hidle] at hi; cases hi
  | parent => exact absurd rfl hup
  | link _ _ _ he => exact absurd ⟨before, name, directory, _, hpieces, hdirectory, he⟩ hlink
  | entry _ _ _ _ _ hnil =>
    cases hnil
    exact ⟨directory, rfl⟩

end FileTree

/-! ### Candidates with a suffix -/

namespace World

variable {w : World} {p : SearchPath} {name path candidate : String} {k : ModuleKind}
  {l : Location}

/-- The candidate for `name` with the suffix of `k` in one of the directories leads to the file at
`l`, and no candidate before it leads to a file. -/
structure FoundThrough (w : World) (p : SearchPath) (name : String) (k : ModuleKind)
    (candidate : String) (l : Location) : Prop where
  suffixed : ∃ dir ∈ lookupDirs p name, candidate = dir ++ "/" ++ name ++ k.suffix
  first : ∃ before after, candidates p name = before ++ candidate :: after ∧ w.FindsNone before
  finds : w.FindsFile candidate l

theorem firstFile_iff {cs : List String} : w.FirstFile l cs
    ↔ ∃ before candidate after, cs = before ++ candidate :: after ∧ w.FindsNone before
      ∧ w.FindsFile candidate l := by
  constructor
  · intro h
    induction h with
    | @here candidate rest h => exact ⟨[], candidate, rest, rfl, nofun, h⟩
    | @there other rest hnot h ih =>
      obtain ⟨before, candidate, after, rfl, hnone, hfinds⟩ := ih
      refine ⟨other :: before, candidate, after, rfl, ?_, hfinds⟩
      exact List.forall_mem_cons.2 ⟨hnot, hnone⟩
  · rintro ⟨before, candidate, after, rfl, hnone, hfinds⟩
    induction before with
    | nil => exact .here hfinds
    | cons other before ih =>
      obtain ⟨hnot, hrest⟩ := List.forall_mem_cons.1 hnone
      exact .there hnot (ih hrest)

theorem FoundThrough.resolve (h : w.FoundThrough p name k candidate l)
    (hrelative : Path.isAbsolute name = false) : w.resolve p name = .ok l.path := by
  obtain ⟨before, after, hcandidates, hnone⟩ := h.first
  exact (resolve_eq_ok_iff hrelative).2
    ⟨l, firstFile_iff.2 ⟨before, candidate, after, hcandidates, hnone, h.finds⟩, rfl⟩

/-- What is found for a name without an extension is found through a suffix. -/
theorem exists_foundThrough (hrelative : Path.isAbsolute name = false)
    (hsuffixes : ModuleKind.candidateSuffixes name = ModuleKind.all.map ModuleKind.suffix)
    (h : w.resolve p name = .ok path) :
    ∃ k candidate l, w.FoundThrough p name k candidate l ∧ path = l.path := by
  obtain ⟨l, hfirst, rfl⟩ := (resolve_eq_ok_iff hrelative).1 h
  obtain ⟨before, candidate, after, hcandidates, hnone, hfinds⟩ := firstFile_iff.1 hfirst
  have hmem : candidate ∈ candidates p name :=
    hcandidates ▸ List.mem_append_right _ List.mem_cons_self
  simp only [candidates, List.mem_flatMap, List.mem_map, hsuffixes] at hmem
  obtain ⟨dir, hdir, -, ⟨k, -, rfl⟩, rfl⟩ := hmem
  exact ⟨k, _, l, ⟨⟨dir, hdir, rfl⟩, ⟨before, after, hcandidates, hnone⟩, hfinds⟩, rfl⟩

/-- A candidate that is not a link itself leads to a file of the kind whose suffix it has, if there
is something of the name before the suffix. -/
theorem FoundThrough.ofPath (h : w.FoundThrough p name k candidate l) (hne : name ≠ "")
    (hslash : name.toList.getLast? ≠ some '/') (hlink : ¬ w.files.NamesLink w.cwd candidate) :
    ModuleKind.ofPath l.path = .ok k := by
  obtain ⟨dir, -, rfl⟩ := h.suffixed
  have hlast : (dir ++ "/" ++ name).toList.getLast? ≠ some '/' := by
    have htext : name.toList ≠ [] := fun hnil => hne (String.toList_inj.1 hnil)
    rw [String.toList_append, List.getLast?_append_of_ne_nil _ htext]
    exact hslash
  obtain ⟨before, stem, hstem, hpieces⟩ := Path.exists_pieces_append (by simp) hlast
  have hcandidate := hpieces k.suffix k.noSlash_suffix
  obtain ⟨hidle, hup⟩ := ModuleKind.isIdle_append_suffix stem k
  have hleads := FileTree.leadsTo_of_canonicalize h.finds.1
  obtain ⟨directory, rfl⟩ := hleads.exists_eq_concat hcandidate hidle hup hlink
  have hnot : '/' ∉ (stem ++ k.suffix).toList :=
    Path.noSlash_of_mem_pieces (hcandidate ▸ List.mem_append_right _ List.mem_cons_self)
  obtain ⟨above, habove⟩ := Path.exists_pieces_path directory hnot
  exact (ModuleKind.ofPath_of_pieces habove hidle hup).2 ⟨stem, hstem, rfl⟩

/-- The kind of a file is that of its own name. -/
theorem FindsFile.ofPath (hw : w.files.WellFormed) (h : w.FindsFile candidate l) :
    ∃ directory file, l = directory ++ [file]
      ∧ ∀ k, ModuleKind.ofPath l.path = .ok k ↔ ∃ stem, stem ≠ "" ∧ file = stem ++ k.suffix := by
  obtain ⟨-, contents, he⟩ := h
  rcases List.eq_nil_or_concat' l with rfl | ⟨directory, file, rfl⟩
  · cases he
  · have hname := (hw _ _ he file directory rfl).1
    obtain ⟨above, habove⟩ := Path.exists_pieces_path directory hname.noSlash
    exact ⟨directory, file, rfl, fun k =>
      ModuleKind.ofPath_of_pieces habove hname.notIdle hname.notParent⟩

end World

end ModuleHost
