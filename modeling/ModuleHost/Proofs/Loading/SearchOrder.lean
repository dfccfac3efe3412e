import ModuleHost.Proofs.FileTree.Following
import ModuleHost.Proofs.Loading.Carried

/-!
# The order of the search

A name is looked for in one directory after the other, and in each directory with one suffix after
the other.  So a search path that is put together from two finds what its first part finds, and what
its second part finds if the first finds nothing (`resolve_extend`); in one directory the first
candidate counts that leads to a file (`resolve_singleton_eq_ok_iff`); and nothing is found where no
candidate in any directory leads to a file (`resolve_eq_error_iff`).  What does not lead to a file
is passed over, be it a dangling link, a directory or too long a name.
-/

namespace ModuleHost.World

variable {w : World} {p p₁ p₂ : SearchPath} {dir name path candidate : String} {l l' : Location}
  {cs : List String}

def Searched (name : String) : Prop :=
  name.toList.head? ≠ some '/' ∧ name.toList.head? ≠ some '.'

instance (name : String) : Decidable (Searched name) := inferInstanceAs (Decidable (_ ∧ _))

def candidatesIn (dir name : String) : List String :=
  if (Path.extension? name).isSome then [dir ++ "/" ++ name]
  else [dir ++ "/" ++ name ++ ".nlb", dir ++ "/" ++ name ++ ".nl", dir ++ "/" ++ name ++ ".so"]

/-- The candidate can be brought to its canonical form, and a file is there. -/
def FindsFile (w : World) (candidate : String) (l : Location) : Prop :=
  w.files.canonicalize w.cwd candidate = .ok l
    ∧ ∃ contents, w.files.entryAt? l = some (.file contents)

/-- The first of the candidates that finds a file finds the one at `l`. -/
inductive FirstFile (w : World) (l : Location) : List String → Prop
  | here {candidate : String} {rest : List String} (h : w.FindsFile candidate l) :
      FirstFile w l (candidate :: rest)
  | there {candidate : String} {rest : List String} (hnot : ∀ l', ¬ w.FindsFile candidate l')
      (h : FirstFile w l rest) : FirstFile w l (candidate :: rest)

def FindsNone (w : World) (cs : List String) : Prop :=
  ∀ candidate ∈ cs, ∀ l, ¬ w.FindsFile candidate l

/-! ### Candidates -/

theorem candidateFile?_eq_some : w.candidateFile? candidate = some l ↔ w.FindsFile candidate l :=
  Carries.candidateFile?_eq_some_iff

theorem candidateFile?_eq_none :
    w.candidateFile? candidate = none ↔ ∀ l, ¬ w.FindsFile candidate l := by
  simp only [Option.eq_none_iff_forall_ne_some, ne_eq, candidateFile?_eq_some]

theorem findSome?_eq_some_iff : cs.findSome? w.candidateFile? = some l ↔ w.FirstFile l cs := by
  constructor
  · intro h
    induction cs with
    | nil => cases h
    | cons candidate rest ih =>
      rw [List.findSome?_cons] at h
      split at h
      · next hfile =>
        cases h
        exact .here (candidateFile?_eq_some.1 hfile)
      · next hnone => exact .there (candidateFile?_eq_none.1 hnone) (ih h)
  · intro h
    induction h with
    | here h => rw [List.findSome?_cons, candidateFile?_eq_some.2 h]
    | there hnot h ih => rw [List.findSome?_cons, candidateFile?_eq_none.2 hnot, ih]

theorem findSome?_eq_none_iff : cs.findSome? w.candidateFile? = none ↔ w.FindsNone cs := by
  simp only [List.findSome?_eq_none_iff, candidateFile?_eq_none, FindsNone]

theorem findsNone_or_firstFile (w : World) (cs : List String) :
    w.FindsNone cs ∨ ∃ l, w.FirstFile l cs := by
  cases h : cs.findSome? w.candidateFile? with
  | none => exact Or.inl (findSome?_eq_none_iff.1 h)
  | some l => exact Or.inr ⟨l, findSome?_eq_some_iff.1 h⟩

theorem map_candidateSuffixes (dir name : String) :
    ((ModuleKind.candidateSuffixes name).map fun suffix => dir ++ "/" ++ name ++ suffix)
      = candidatesIn dir name := by
  rw [ModuleKind.candidateSuffixes, candidatesIn]
  split
  · rw [List.map_singleton, String.append_empty]
  · rfl

theorem candidates_eq (p : SearchPath) (name : String) :
    candidates p name = (lookupDirs p name).flatMap (candidatesIn · name) := by
  simp only [candidates, map_candidateSuffixes]

theorem Searched.candidates (h : Searched name) (p : SearchPath) :
    candidates p name = p.dirs.flatMap (candidatesIn · name) := by
  rw [candidates_eq, lookupDirs, if_neg h.2]

theorem Searched.candidates_singleton (h : Searched name) (dir : String) :
    World.candidates { dirs := [dir] } name = candidatesIn dir name := by
  rw [h.candidates, List.flatMap_singleton]

theorem Searched.candidates_extend (h : Searched name) (p₁ p₂ : SearchPath) :
    World.candidates (p₁.extend p₂.dirs) name
      = World.candidates p₁ name ++ World.candidates p₂ name := by
  rw [h.candidates, h.candidates, h.candidates, SearchPath.extend, List.flatMap_append]

/-! ### What is found -/

theorem Searched.isAbsolute (h : Searched name) : Path.isAbsolute name = false :=
  decide_eq_false h.1

theorem resolve_eq (h : Path.isAbsolute name = false) (w : World) (p : SearchPath) :
    w.resolve p name = match (candidates p name).findSome? w.candidateFile? with
      | some l => .ok l.path
      | none => .error (.notFound name) := by
  have hrelative : ¬ Path.isAbsolute name = true := by
    rw [h]
    decide
  exact (if_neg hrelative).trans rfl

theorem resolve_eq_ok_iff (h : Path.isAbsolute name = false) :
    w.resolve p name = .ok path ↔ ∃ l, w.FirstFile l (candidates p name) ∧ path = l.path := by
  simp only [← findSome?_eq_some_iff]
  rw [resolve_eq h]
  constructor
  · intro hresolve
    split at hresolve
    · next l hfound =>
      cases hresolve
      exact ⟨l, hfound, rfl⟩
    · cases hresolve
  · rintro ⟨l, hfound, rfl⟩
    rw [hfound]

/-- In one directory the first candidate counts that leads to a file. -/
theorem resolve_singleton_eq_ok_iff (h : Searched name) :
    w.resolve { dirs := [dir] } name = .ok path
      ↔ ∃ l, w.FirstFile l (candidatesIn dir name) ∧ path = l.path := by
  rw [resolve_eq_ok_iff h.isAbsolute, h.candidates_singleton]

/-- A name is not found if none of its candidates in any directory leads to a file. -/
theorem resolve_eq_error_iff (h : Searched name) {e : LoadError} :
    w.resolve p name = .error e
      ↔ e = .notFound name ∧ ∀ dir ∈ p.dirs, w.FindsNone (candidatesIn dir name) := by
  have hall : (∀ dir ∈ p.dirs, w.FindsNone (candidatesIn dir name))
      ↔ (candidates p name).findSome? w.candidateFile? = none := by
    rw [findSome?_eq_none_iff, h.candidates, FindsNone, List.forall_mem_flatMap]
    rfl
  rw [resolve_eq h.isAbsolute, hall]
  constructor
  · intro hresolve
    split at hresolve
    · cases hresolve
    · next hnone =>
      cases hresolve
      exact ⟨rfl, hnone⟩
  · rintro ⟨rfl, hnone⟩
    rw [hnone]

/-- What the first part of a search path does not find is looked for by the second. -/
theorem resolve_extend (h : Searched name) (w : World) (p₁ p₂ : SearchPath) :
    w.resolve (p₁.extend p₂.dirs) name = match w.resolve p₁ name with
      | .ok path => .ok path
      | .error _ => w.resolve p₂ name := by
  rw [resolve_eq h.isAbsolute w (p₁.extend p₂.dirs), h.candidates_extend, List.findSome?_append,
    resolve_eq h.isAbsolute w p₁]
  cases (candidates p₁ name).findSome? w.candidateFile? with
  | some l => rfl
  | none => rw [Option.none_or, resolve_eq h.isAbsolute w p₂]

/-- The path leads from the root along two names, which can be looked up. -/
structure HasNames (path first second : String) : Prop where
  pieces : Path.pieces path = ["", first, second]
  absolute : Path.isAbsolute path = true
  noNul : path.toList.contains '\x00' = false
  names : ∀ name ∈ [first, second], Path.isIdle name = false ∧ name ≠ ".."
  short : FileTree.nameTooLong .locate [] first = false
    ∧ FileTree.nameTooLong .locate [first] second = false

instance (path first second : String) : Decidable (HasNames path first second) :=
  decidable_of_iff (Path.pieces path = ["", first, second] ∧ Path.isAbsolute path = true
      ∧ path.toList.contains '\x00' = false
      ∧ (∀ name ∈ [first, second], Path.isIdle name = false ∧ name ≠ "..")
      ∧ FileTree.nameTooLong .locate [] first = false
      ∧ FileTree.nameTooLong .locate [first] second = false)
    ⟨fun ⟨hp, ha, hn, hi, hs⟩ => ⟨hp, ha, hn, hi, hs⟩, fun h => ⟨h.1, h.2, h.3, h.4, h.5⟩⟩

namespace HasNames

variable {t : FileTree} {first second : String} {e : Entry}

theorem looksUp (h : HasNames path first second) : FileTree.LooksUp .locate [first] second [] := by
  obtain ⟨hidle, hup⟩ := h.names second (by simp)
  exact ⟨hidle, hup, rfl, h.short.2⟩

theorem place (h : HasNames path first second) (hd : t.entryAt? [first] = some .directory)
    (cwd : Location) :
    t.place .locate cwd path = t.follow .locate FileTree.maxLinks [first] [second] := by
  have hempty : ¬ path.isEmpty = true := by
    intro hempty
    have habsolute := h.absolute
    rw [String.isEmpty_iff.1 hempty] at habsolute
    exact absurd habsolute (by decide)
  have hlink : ∀ target, Entry.directory ≠ .link target := by
    intro target heq
    cases heq
  obtain ⟨hidle, hup⟩ := h.names first List.mem_cons_self
  rw [FileTree.place, if_neg hempty, if_neg (by rw [h.noNul]; decide), if_neg (by simp), h.pieces,
    if_pos h.absolute, FileTree.follow_idle rfl rfl,
    FileTree.follow_entry (e := .directory) rfl ⟨hidle, hup, rfl, h.short.1⟩ hlink hd]
  rfl

theorem canonicalize (h : HasNames path first second) (hd : t.entryAt? [first] = some .directory)
    (he : t.entryAt? [first, second] = some e) (hl : ∀ target, e ≠ .link target)
    (cwd : Location) : t.canonicalize cwd path = .ok [first, second] := by
  rw [FileTree.canonicalize_eq_ok_iff, h.place hd, FileTree.follow_entry hd h.looksUp hl he,
    FileTree.follow]
  rfl

theorem not_findsFile_of_vacant (h : HasNames path first second)
    (hd : w.files.entryAt? [first] = some .directory)
    (hnone : w.files.entryAt? [first, second] = none) (l : Location) : ¬ w.FindsFile path l := by
  intro hfinds
  have hplace := FileTree.canonicalize_eq_ok_iff.1 hfinds.1
  rw [h.place hd, FileTree.follow_name hd h.looksUp, List.singleton_append, hnone] at hplace
  cases hplace

theorem not_findsFile_of_directory (h : HasNames path first second)
    (hd : w.files.entryAt? [first] = some .directory)
    (he : w.files.entryAt? [first, second] = some .directory) (l : Location) :
    ¬ w.FindsFile path l := by
  rintro ⟨hlocate, contents, hfile⟩
  cases (h.canonicalize hd he nofun w.cwd).symm.trans hlocate
  cases he.symm.trans hfile

end HasNames

namespace Overlooked

/-- The directory `a` is empty, and in `b` there are a directory and a file under names that are
tried for one module. -/
def world : World where
  files := { entries := [(["a"], .directory), (["b"], .directory), (["b", "m.nlb"], .directory),
    (["b", "m.nl"], .file [])] }

/-- Nothing is found in a directory that is empty. -/
theorem findsNone_of_vacant (hd : w.files.entryAt? ["a"] = some .directory)
    (hnone : ∀ file ∈ ["m.nlb", "m.nl", "m.so"], w.files.entryAt? ["a", file] = none) :
    w.FindsNone (candidatesIn "/a" "m") := by
  have hcandidates : candidatesIn "/a" "m"
      = ["m.nlb", "m.nl", "m.so"].map ("/a/" ++ ·) := by decide
  have hnames : ∀ file ∈ ["m.nlb", "m.nl", "m.so"], HasNames ("/a/" ++ file) "a" file := by decide
  rw [hcandidates]
  intro candidate hmem
  obtain ⟨file, hfile, rfl⟩ := List.mem_map.1 hmem
  exact (hnames file hfile).not_findsFile_of_vacant hd (hnone file hfile)

/-- A directory is passed over, and the file behind it is found. -/
theorem firstFile_of_directory (hd : w.files.entryAt? ["b"] = some .directory)
    (hdirectory : w.files.entryAt? ["b", "m.nlb"] = some .directory) {contents : List UInt8}
    (hfile : w.files.entryAt? ["b", "m.nl"] = some (.file contents)) :
    w.FirstFile ["b", "m.nl"] (candidatesIn "/b" "m") := by
  have hcandidates : candidatesIn "/b" "m" = ["/b/m.nlb", "/b/m.nl", "/b/m.so"] := by decide
  have hfirst : HasNames "/b/m.nlb" "b" "m.nlb" := by decide
  have hsecond : HasNames "/b/m.nl" "b" "m.nl" := by decide
  rw [hcandidates]
  refine .there (hfirst.not_findsFile_of_directory hd hdirectory) (.here ?_)
  exact ⟨hsecond.canonicalize hd hfile nofun _, contents, hfile⟩

end Overlooked

end ModuleHost.World
