import ModuleHost.Config.File
import ModuleHost.Proofs.FileTree.Ancestors
import ModuleHost.Proofs.FileTree.Joined
import Mathlib.Data.List.Nodup

/-!
# The nearest configuration

The configuration for a directory is the one in the longest of its ancestors that has a file of the
usual name, whatever comes of loading it; without such a file it is the default one
(`LoaderConfig.find_nearest`).  A file is there if opening it leads to something.  So an entry that
is a link to nothing is passed over like no entry at all (`LoaderConfig.find_overlooks_link`).
-/

namespace ModuleHost.LoaderConfig

variable {files : FileTree} {cwd : Location} {start dir : String}

def IsFoundIn (files : FileTree) (cwd : Location) (dir : String) : Prop :=
  files.pathExists cwd (Path.join dir fileName) = true

/-- The longest ancestor of `start` with a configuration file. -/
structure Nearest (files : FileTree) (cwd : Location) (start dir : String) : Prop where
  ancestor : Path.Ancestor start dir
  found : IsFoundIn files cwd dir
  longest : ∀ other, Path.Ancestor start other → IsFoundIn files cwd other →
    other.length ≤ dir.length

def firstFound? (files : FileTree) (cwd : Location) (dirs : List String) : Option String :=
  dirs.find? fun dir => files.pathExists cwd (Path.join dir fileName)

theorem loadFirst_eq (files : FileTree) (cwd : Location) (dirs : List String) :
    loadFirst files cwd dirs = match firstFound? files cwd dirs with
      | some dir => load files cwd (Path.join dir fileName)
      | none => .ok {} := by
  induction dirs with
  | nil => rfl
  | cons dir dirs ih =>
    rw [loadFirst, firstFound?, List.find?_cons]
    cases files.pathExists cwd (Path.join dir fileName) with
    | true => rfl
    | false => exact ih

/-- Ancestors of one length are the same. -/
theorem ancestor_inj (h : Path.isAbsolute start = true) {other : String}
    (hdir : Path.Ancestor start dir) (hother : Path.Ancestor start other)
    (hlength : dir.length = other.length) : dir = other := by
  have hnodup : ((Path.ancestors start).map String.length).Nodup :=
    List.pairwise_map.2 ((Path.pairwise_ancestors h).imp fun hlt => Nat.ne_of_gt hlt)
  rw [← Path.mem_ancestors_iff h] at hdir hother
  exact List.inj_on_of_nodup_map hnodup hdir hother hlength

/-- The list of ancestors goes from the longest to the shortest, so the first one found is the
nearest. -/
theorem nearest_of_firstFound? (h : Path.isAbsolute start = true)
    (hfirst : firstFound? files cwd (Path.ancestors start) = some dir) :
    Nearest files cwd start dir := by
  obtain ⟨hfound, longer, shorter, hsplit, hlonger⟩ := List.find?_eq_some_iff_append.1 hfirst
  have hpairwise := Path.pairwise_ancestors h
  have hmem : dir ∈ Path.ancestors start := by
    rw [hsplit]
    exact List.mem_append_right longer List.mem_cons_self
  refine ⟨(Path.mem_ancestors_iff h).1 hmem, hfound, fun other hother hfound' => ?_⟩
  rw [← Path.mem_ancestors_iff h, hsplit, List.mem_append, List.mem_cons] at hother
  rw [hsplit, List.pairwise_append, List.pairwise_cons] at hpairwise
  rcases hother with hother | rfl | hother
  · have hnot := hlonger other hother
    rw [hfound'] at hnot
    cases hnot
  · exact Nat.le_refl _
  · exact Nat.le_of_lt (hpairwise.2.1.1 other hother)

theorem firstFound?_isSome (h : Path.isAbsolute start = true) (hdir : Path.Ancestor start dir)
    (hfound : IsFoundIn files cwd dir) :
    ∃ first, firstFound? files cwd (Path.ancestors start) = some first :=
  Option.isSome_iff_exists.1
    (List.find?_isSome.2 ⟨dir, (Path.mem_ancestors_iff h).2 hdir, hfound⟩)

theorem firstFound?_eq_some_iff (h : Path.isAbsolute start = true) :
    firstFound? files cwd (Path.ancestors start) = some dir ↔ Nearest files cwd start dir := by
  refine ⟨nearest_of_firstFound? h, fun hdir => ?_⟩
  obtain ⟨first, hfirst⟩ := firstFound?_isSome h hdir.ancestor hdir.found
  have hnearest := nearest_of_firstFound? h hfirst
  rw [hfirst, ancestor_inj h hnearest.ancestor hdir.ancestor]
  exact Nat.le_antisymm (hdir.longest first hnearest.ancestor hnearest.found)
    (hnearest.longest dir hdir.ancestor hdir.found)

theorem isName_fileName : Path.IsName fileName := by
  constructor <;> decide

/-- **The nearest configuration.**  If one of the ancestors of a directory has a configuration file,
then a single one is the longest of these, and whatever comes of loading its file comes of looking
for a configuration; if none has, it is the default one.  An ancestor with a configuration file has
an entry of that name, and every such entry counts that is no link and whose path can be opened. -/
theorem find_nearest (h : Path.isAbsolute start = true) (files : FileTree) (cwd : Location) :
    ((∃ dir, Path.Ancestor start dir ∧ IsFoundIn files cwd dir)
      → ∃! dir, Nearest files cwd start dir)
    ∧ (∀ dir, Nearest files cwd start dir
      → find files cwd start = load files cwd (Path.join dir fileName))
    ∧ ((∀ dir, Path.Ancestor start dir → ¬ IsFoundIn files cwd dir)
      → find files cwd start = .ok {})
    ∧ (∀ dir, Path.Ancestor start dir → IsFoundIn files cwd dir
      → ∃ e, files.EntryIn cwd dir fileName e)
    ∧ ∀ dir e, files.EntryIn cwd dir fileName e → (∀ target, e ≠ .link target)
      → (Path.join dir fileName).utf8ByteSize < FileTree.pathByteLimit
      → IsFoundIn files cwd dir := by
  refine ⟨?_, fun dir hdir => ?_, fun hnone => ?_, fun dir hdir hfound => ?_, ?_⟩
  · rintro ⟨dir, hdir, hfound⟩
    obtain ⟨first, hfirst⟩ := firstFound?_isSome h hdir hfound
    refine ⟨first, nearest_of_firstFound? h hfirst, fun other hother => ?_⟩
    exact Option.some.inj (((firstFound?_eq_some_iff h).2 hother).symm.trans hfirst)
  · rw [find, loadFirst_eq, (firstFound?_eq_some_iff h).2 hdir]
  · have hfirst : firstFound? files cwd (Path.ancestors start) = none :=
      List.find?_eq_none.2 fun dir hdir => hnone dir ((Path.mem_ancestors_iff h).1 hdir)
    rw [find, loadFirst_eq, hfirst]
  · obtain ⟨e, he⟩ := FileTree.pathExists_iff.1 hfound
    have hstart : start ≠ "" := by
      rintro rfl
      cases h
    exact FileTree.entryIn_of_openEntry (hdir.ne_empty hstart) isName_fileName he
  · intro dir e hentry hlink hshort
    exact FileTree.pathExists_iff.2 ⟨e, hentry.openEntry hlink isName_fileName hshort⟩

/-- A file in the root that is no text, above a directory that is not there. -/
theorem find_nearest_unreadable :
    let files := FileTree.single fileName [255]
    Path.isAbsolute "/a" = true ∧ find files [] "/a" = .error (.unreadable .invalidText) := by
  intro files
  have hopen : files.openEntry [] "/nlreq.toml" = .ok (.file [255]) :=
    FileTree.openEntry_single isName_fileName [255] []
  have hexists : files.pathExists [] "/nlreq.toml" = true := FileTree.pathExists_iff.2 ⟨_, hopen⟩
  have hancestors : Path.ancestors "/a" = ["/a", "/"] := by decide
  have hname : Path.IsName "a" := by constructor <;> decide
  have hpath : "/" ++ "a" = "/a" := rfl
  have hlower : ¬ IsFoundIn files [] "/a" := by
    intro hfound
    obtain ⟨e, he⟩ := FileTree.pathExists_iff.1 hfound
    obtain ⟨-, l, hl, -⟩ := FileTree.entryIn_of_openEntry (by decide) isName_fileName he
    have hvacant : files.entryAt? ([] ++ ["a"]) = none := by decide
    rw [← hpath, FileTree.locationFor_root_iff hname,
      FileTree.follow_name rfl (FileTree.looksUp_read hname [] []), hvacant] at hl
    cases hl
  have hnearest : Nearest files [] "/a" "/" := by
    refine ⟨(Path.mem_ancestors_iff rfl).1 ?_, hexists, fun other hother hfound => ?_⟩
    · rw [hancestors]
      decide
    · rw [← Path.mem_ancestors_iff rfl, hancestors, List.mem_cons, List.mem_singleton] at hother
      rcases hother with rfl | rfl
      · exact absurd hfound hlower
      · exact Nat.le_refl _
  have hcontents : files.contentsOf [] "/nlreq.toml" = .ok [255] := by
    rw [FileTree.contentsOf, hopen]
    rfl
  have hload : load files [] "/nlreq.toml" = .error (.unreadable .invalidText) := by
    rw [load, hexists, hcontents]
    decide
  exact ⟨rfl, ((find_nearest rfl files []).2.1 "/" hnearest).trans hload⟩

/-- A configuration file that is a link to nothing is an entry, and loading it fails; but it is
passed over. -/
theorem find_overlooks_link :
    let files : FileTree :=
      { entries := [(["a"], .directory), (["a", fileName], .link "missing")] }
    files.EntryIn [] "/a" fileName (.link "missing")
      ∧ load files [] "/a/nlreq.toml" = .error (.notFound "/a/nlreq.toml")
      ∧ find files [] "/a" = .ok {} := by
  intro files
  have hname : Path.IsName "a" := by constructor <;> decide
  have hmissing : Path.IsName "missing" := by constructor <;> decide
  have hdirectory : files.entryAt? ([] ++ ["a"]) = some .directory := by decide
  have hlink : files.entryAt? (["a"] ++ [fileName]) = some (.link "missing") := by decide
  have hdir : files.locationFor .read [] "/a" = .ok ["a"] := by
    have hpath : "/" ++ "a" = "/a" := rfl
    rw [← hpath, FileTree.locationFor_root_iff hname,
      FileTree.follow_entry rfl (FileTree.looksUp_read hname [] []) (by simp) hdirectory,
      FileTree.follow]
    rfl
  have hlower : files.pathExists [] (Path.join "/a" fileName) = false := by
    rw [← Bool.not_eq_true, FileTree.pathExists_iff]
    rintro ⟨e, he⟩
    exact FileTree.openEntry_ne_ok_of_link hdir hdirectory hlink isName_fileName hmissing
      (by decide) e he
  have hupper : files.pathExists [] (Path.join "/" fileName) = false := by
    rw [← Bool.not_eq_true, FileTree.pathExists_iff]
    rintro ⟨e, he⟩
    obtain ⟨l, hl, -⟩ := FileTree.openEntry_eq_ok_iff.1 he
    have hjoin : Path.join "/" fileName = "/" ++ fileName := by decide
    have hvacant : files.entryAt? ([] ++ [fileName]) = none := by decide
    rw [hjoin, FileTree.locationFor_root_iff isName_fileName,
      FileTree.follow_name rfl (FileTree.looksUp_read isName_fileName [] []), hvacant] at hl
    cases hl
  refine ⟨⟨["a"], hdir, by decide, hlink⟩, ?_, ?_⟩
  · have hjoin : Path.join "/a" fileName = "/a/nlreq.toml" := by decide
    rw [load, ← hjoin, hlower]
    rfl
  · have hancestors : Path.ancestors "/a" = ["/a", "/"] := by decide
    rw [find, hancestors, loadFirst, hlower, loadFirst, hupper]
    rfl

end ModuleHost.LoaderConfig
