import ModuleHost.Loading.Resolution
import ModuleHost.Proofs.Assembly.Sources
import ModuleHost.Proofs.Loading.Availability
import ModuleHost.Proofs.Modules.Bodies
import ModuleHost.Proofs.Modules.Traversal

/-!
# A graph of modules in a directory

A graph is installed in a directory if every module is a source file there, alone under its name,
whose body requires what the module requires and then prints its name.  Each module is then found
under its name and its file gives the text of the body, in every world that has more temporary files
than the first one.
-/

namespace ModuleHost

open Assembly (TextCall MakesCalls)

def ModuleGraph.calls (g : ModuleGraph) (m : String) : List TextCall :=
  (g.requires m).map (TextCall.mk "require") ++ [⟨"print", m⟩]

def modulePath (l : Location) (m : String) : String :=
  Location.path (l ++ [m ++ ModuleKind.source.suffix])

/-- The graph is installed in `dir`, which leads to `l`.  The paths are as short as the operating
system asks for, the bodies as short as bytecode asks for. -/
structure Installed (g : ModuleGraph) (config : LoaderConfig) (dir : String) (l : Location)
    (w : World) : Prop where
  leads : w.files.canonicalize w.cwd dir = .ok l
  directory : FileTree.DirectoryAt w.files l
  source : ∀ m ∈ g.names, ∃ source,
    w.files.entryAt? (l ++ [m ++ ModuleKind.source.suffix]) = some (.file (Bytes.ofText source))
      ∧ MakesCalls source (g.calls m)
  alone : ∀ m ∈ g.names, ∀ kind ≠ ModuleKind.source,
    w.files.entryAt? (l ++ [m ++ kind.suffix]) = none
  nameShort : ∀ m ∈ g.names,
    (m ++ ModuleKind.source.suffix).utf8ByteSize ≤ FileTree.maxNameBytes
  pathShort : ∀ m ∈ g.names, (modulePath l m).utf8ByteSize < FileTree.pathByteLimit
  bodyShort : ∀ m ∈ g.names, 2 * (g.requires m).length + 3 ≤ Bytecode.maxLength
  /-- Temporary files can be created: each of them takes at most this many numbers. -/
  temporary : ∀ n < World.artifactAttempts * g.names.length, ∃ a,
    (World.createArtifact { w with nextArtifact := w.nextArtifact + n } config).1 = .ok a

/-! ### Names of modules -/

theorem Assembly.notMem_of_isName {cs : List Char} {sign : Char} (h : isName cs = true)
    (hstart : startsName sign = false) (hcontinue : continuesName sign = false) : sign ∉ cs := by
  cases cs with
  | nil => exact List.not_mem_nil
  | cons first rest =>
    rw [isName, Bool.and_eq_true, List.all_eq_true] at h
    intro hmem
    rcases List.mem_cons.1 hmem with rfl | hmem
    · rw [hstart] at h
      cases h.1
    · have hrest := h.2 sign hmem
      rw [hcontinue] at hrest
      cases hrest

variable {g : ModuleGraph} {config : LoaderConfig} {dir m m' : String} {l : Location}
  {w w₀ : World}

namespace ModuleGraph

theorem noDot (hm : m ∈ g.names) : '.' ∉ m.toList :=
  Assembly.notMem_of_isName (g.named m hm) (by decide) (by decide)

theorem noSlash (hm : m ∈ g.names) : '/' ∉ m.toList :=
  Assembly.notMem_of_isName (g.named m hm) (by decide) (by decide)

theorem noNul (hm : m ∈ g.names) : '\x00' ∉ m.toList :=
  Assembly.notMem_of_isName (g.named m hm) (by decide) (by decide)

theorem plain (hm : m ∈ g.names) : Assembly.Plain m.toList := by
  intro c hc
  refine ⟨?_, ?_, ?_⟩ <;> rintro rfl
  all_goals exact Assembly.notMem_of_isName (g.named m hm) (by decide) (by decide) hc

/-- Every module has a source. -/
theorem makesCalls_sourceOf (hm : m ∈ g.names) :
    MakesCalls (Assembly.sourceOf (g.calls m)) (g.calls m) := by
  apply Assembly.makesCalls_sourceOf
  intro c hc
  rcases List.mem_append.1 hc with hc | hc
  · obtain ⟨d, hd, rfl⟩ := List.mem_map.1 hc
    exact ⟨plain (g.closed m hm d hd), Or.inl rfl⟩
  · obtain rfl := List.mem_singleton.1 hc
    exact ⟨plain hm, Or.inr rfl⟩

theorem exists_toList (hm : m ∈ g.names) : ∃ c cs, m.toList = c :: cs ∧ c ≠ '.' ∧ c ≠ '/' := by
  have hname := g.named m hm
  have hdot := noDot hm
  have hslash := noSlash hm
  cases hcs : m.toList with
  | nil =>
    rw [hcs] at hname
    cases hname
  | cons c cs =>
    rw [hcs] at hdot hslash
    exact ⟨c, cs, rfl, (List.ne_of_not_mem_cons hdot).symm, (List.ne_of_not_mem_cons hslash).symm⟩

/-- A module with a suffix is a name, which may be too long. -/
theorem file_name (hm : m ∈ g.names) (kind : ModuleKind) :
    Path.isIdle (m ++ kind.suffix) = false ∧ m ++ kind.suffix ≠ ".."
      ∧ '/' ∉ (m ++ kind.suffix).toList ∧ '\x00' ∉ (m ++ kind.suffix).toList := by
  obtain ⟨c, cs, hcs, hdot, _⟩ := exists_toList hm
  have hc : c ∈ (m ++ kind.suffix).toList := by
    rw [String.toList_append, hcs]
    exact List.mem_cons_self
  obtain ⟨hidle, hup⟩ := Path.isIdle_of_mem hc hdot
  have hnot : ∀ sign : Char, sign ∉ m.toList → sign ∉ kind.suffix.toList →
      sign ∉ (m ++ kind.suffix).toList := by
    intro sign h₁ h₂
    rw [String.toList_append, List.mem_append]
    exact not_or.2 ⟨h₁, h₂⟩
  refine ⟨hidle, hup, ?_, ?_⟩
  · exact hnot '/' (noSlash hm) (by cases kind <;> decide)
  · exact hnot '\x00' (noNul hm) (by cases kind <;> decide)

theorem candidateSuffixes_name (hm : m ∈ g.names) :
    ModuleKind.candidateSuffixes m = ModuleKind.all.map ModuleKind.suffix := by
  obtain ⟨c, cs, hcs, hdot, _⟩ := exists_toList hm
  have hpieces : Path.pieces m = [] ++ [m] := Path.pieces_of_noSlash (noSlash hm)
  obtain ⟨hidle, hup⟩ := Path.isIdle_of_mem (hcs ▸ List.mem_cons_self : c ∈ m.toList) hdot
  have hextension : Path.extension? m = none := by
    rw [Path.extension?, Path.fileName?_of_pieces hpieces hidle hup, Option.bind_some,
      Path.cutAtLastDot?_of_noDot (noDot hm), Option.map_none]
  rw [ModuleKind.candidateSuffixes, hextension]
  rfl

theorem candidates_name (hm : m ∈ g.names) (dir : String) :
    World.candidates { dirs := [dir] } m
      = ModuleKind.all.map fun kind => dir ++ "/" ++ (m ++ kind.suffix) := by
  obtain ⟨c, cs, hcs, hdot, _⟩ := exists_toList hm
  have hdirs : World.lookupDirs { dirs := [dir] } m = [dir] := by
    rw [World.lookupDirs, hcs, List.head?_cons, if_neg]
    exact fun h => hdot (Option.some.inj h)
  rw [World.candidates, hdirs, List.flatMap_singleton, candidateSuffixes_name hm, List.map_map]
  exact List.map_congr_left fun kind _ => String.append_assoc

end ModuleGraph

theorem modulePath_inj (h : modulePath l m = modulePath l m') : m = m' := by
  obtain ⟨start, hpath⟩ := Path.path_concat l
  rw [modulePath, modulePath, hpath, hpath, ← String.toList_inj] at h
  simp only [String.toList_append, List.append_cancel_left_eq, List.append_cancel_right_eq] at h
  exact String.toList_inj.1 h

theorem ofPath_modulePath (hl : ∀ name ∈ l, '/' ∉ name.toList) (hm : m ∈ g.names) :
    ModuleKind.ofPath (modulePath l m) = .ok .source := by
  obtain ⟨hidle, hup, hslash, _⟩ := g.file_name hm .source
  have hnames : ∀ name ∈ l ++ [m ++ ModuleKind.source.suffix], '/' ∉ name.toList := by
    intro name hname
    rcases List.mem_append.1 hname with hname | hname
    · exact hl name hname
    · exact List.mem_singleton.1 hname ▸ hslash
  have hpieces : Path.pieces (modulePath l m) = ("" :: l) ++ [m ++ ModuleKind.source.suffix] :=
    Path.pieces_path hnames (by simp)
  have hne : m ≠ "" := by
    rintro rfl
    have hname := g.named _ hm
    cases hname
  have hcut : Path.cutAtLastDot? (m ++ ModuleKind.source.suffix) = some (m, "nl") := by
    rw [ModuleKind.suffix, ← String.append_assoc]
    exact Path.cutAtLastDot?_append_dot hne (by decide)
  rw [ModuleKind.ofPath, Path.extension?, Path.fileName?_of_pieces hpieces hidle hup,
    Option.bind_some, hcut]
  rfl

/-! ### Loading a module of the graph -/

namespace Installed

variable (h : Installed g config dir l w₀) (hm : m ∈ g.names) (ha : Available config w₀ w)

section

include h hm

theorem isName_source : Path.IsName (m ++ ModuleKind.source.suffix) := by
  obtain ⟨hidle, hup, hslash, hnul⟩ := g.file_name hm .source
  exact ⟨hidle, hup, hslash, hnul, h.nameShort m hm⟩

theorem writable : Writable (modulePath l m) (g.calls m) where
  short := Nat.le_trans (Nat.le_of_lt (h.pathShort m hm)) (by decide)
  few := by
    have hfew := h.bodyShort m hm
    rw [ModuleGraph.calls, List.length_append, List.length_map, List.length_singleton]
    omega
  texts := by
    have hsize : ∀ m' ∈ g.names, m'.utf8ByteSize ≤ Bytecode.maxLength := by
      intro m' hm'
      have hname := h.nameShort m' hm'
      rw [String.utf8ByteSize_append] at hname
      exact Nat.le_trans (Nat.le_trans (Nat.le_add_right _ _) hname) (by decide)
    intro c hc
    rcases List.mem_append.1 hc with hc | hc
    · obtain ⟨d, hd, rfl⟩ := List.mem_map.1 hc
      exact ⟨hsize d (g.closed m hm d hd),
        show "require".utf8ByteSize ≤ Bytecode.maxLength by decide⟩
    · obtain rfl := List.mem_singleton.1 hc
      exact ⟨hsize m hm, show "print".utf8ByteSize ≤ Bytecode.maxLength by decide⟩

end

include h ha

theorem createArtifact
    (hn : w.nextArtifact < w₀.nextArtifact + World.artifactAttempts * g.names.length) :
    ∃ a n, w.nextArtifact ≤ n ∧ n < w.nextArtifact + World.artifactAttempts
      ∧ a.location.getLast? = some (FileTree.lastName (w₀.artifactPath config n))
      ∧ w.files.entryAt? a.location = none
      ∧ w.createArtifact config = (.ok a, { w with
          files := w.files.insert a.location (.file [])
          nextArtifact := n + 1 }) := by
  have hcounter := ha.counter
  obtain ⟨a, hmade⟩ := h.temporary (w.nextArtifact - w₀.nextArtifact) (by omega)
  rw [Nat.add_sub_cancel' hcounter] at hmade
  exact ⟨a, ha.createArtifact hmade⟩

include hm

theorem entryAt?_source :
    ∃ source, w.files.entryAt? (l ++ [m ++ ModuleKind.source.suffix])
        = some (.file (Bytes.ofText source))
      ∧ MakesCalls source (g.calls m) := by
  obtain ⟨source, hfile, hcalls⟩ := h.source m hm
  exact ⟨source, ha.keeps _ _ hfile, hcalls⟩

theorem entryAt?_other {kind : ModuleKind} (hk : kind ≠ .source) :
    w.files.entryAt? (l ++ [m ++ kind.suffix]) = none := by
  apply ha.vacant _ (h.alone m hm kind hk)
  intro n _ hlast
  rw [List.getLast?_concat, Option.some.injEq] at hlast
  exact World.lastName_artifactPath_ne m kind hlast.symm

theorem resolve : w.resolve { dirs := [dir] } m = .ok (modulePath l m) := by
  have hdir : w.files.canonicalize w.cwd dir = .ok l := by
    rw [ha.cwd]
    exact FileTree.canonicalize_mono ha.keeps h.leads
  have hat := (h.directory.mono ha.keeps).entryAt?
  obtain ⟨source, hfile, _⟩ := h.entryAt?_source hm ha
  have habsolute : Path.isAbsolute m = false := by
    obtain ⟨c, cs, hcs, _, hslash⟩ := g.exists_toList hm
    rw [Path.isAbsolute, hcs]
    exact decide_eq_false fun he => hslash (Option.some.inj he)
  have hcompiled : w.candidateFile? (dir ++ "/" ++ (m ++ ModuleKind.compiled.suffix)) = none := by
    obtain ⟨hidle, hup, hslash, hnul⟩ := g.file_name hm .compiled
    have hnone := h.entryAt?_other hm ha (show ModuleKind.compiled ≠ .source by decide)
    have hnot := FileTree.canonicalize_vacant hdir hat hidle hup hslash hnul hnone
    unfold World.candidateFile?
    split
    · next l' hl' => exact absurd hl' (hnot l')
    · rfl
  have hsource : w.candidateFile? (dir ++ "/" ++ (m ++ ModuleKind.source.suffix))
      = some (l ++ [m ++ ModuleKind.source.suffix]) := by
    have hfound := FileTree.canonicalize_file hdir hat (h.isName_source hm) (h.pathShort m hm)
      hfile
    rw [World.candidateFile?, hfound]
    dsimp only
    rw [hfile]
  rw [World.resolve, habsolute, if_neg (by decide), g.candidates_name hm, ModuleKind.all,
    List.map_cons, List.map_cons, List.findSome?_cons, hcompiled, List.findSome?_cons, hsource]
  rfl

theorem readText : ∃ source, w.readText (modulePath l m) = .ok source
    ∧ MakesCalls source (g.calls m) := by
  obtain ⟨source, hfile, hcalls⟩ := h.entryAt?_source hm ha
  refine ⟨source, ?_, hcalls⟩
  have hopen := FileTree.openEntry_path (h.directory.mono ha.keeps) (h.isName_source hm) hfile
    (by simp) (h.pathShort m hm) w.cwd
  simp only [World.readText, FileTree.contentsOf, modulePath, hopen, bind, Except.bind, pure,
    Except.pure, Bytes.toText?_ofText]

end Installed

end ModuleHost
