import ModuleHost.CommandLine.Run
import ModuleHost.Proofs.CommandLine.SaidDirectories
import ModuleHost.Proofs.Config.RoundTrip
import ModuleHost.Proofs.Loading.PathValues
import ModuleHost.Proofs.Loading.SearchOrder

/-!
# The search path of a command

The search path of a host that a command line asks for is put together in three steps: the
directories of the variable, behind them those of the configuration, and in front of all those of
the switches, each put before the ones that are there, from the last switch to the first.  The
result is one list in the order in which everything was said (`hostOf_eq`), and a module is taken
from the first directory of the list that has it (`resolve_eq_ok_iff_first`).
-/

namespace ModuleHost

/-! ### The first directory with a module -/

namespace World

variable {w : World} {p : SearchPath} {name path : String}

/-- The module stands in the directory `dir`, and in none before it. -/
def TakenFrom (w : World) (name : String) (dirs : List String) (dir : String) (l : Location) :
    Prop :=
  ∃ before after, dirs = before ++ dir :: after
    ∧ (∀ other ∈ before, w.FindsNone (candidatesIn other name))
    ∧ w.FirstFile l (candidatesIn dir name)

/-- A module stands in no directory, or is taken from one of them. -/
theorem findsNone_or_takenFrom (w : World) (name : String) (dirs : List String) :
    (∀ dir ∈ dirs, w.FindsNone (candidatesIn dir name))
      ∨ ∃ dir l, w.TakenFrom name dirs dir l := by
  induction dirs with
  | nil => exact Or.inl nofun
  | cons dir dirs ih =>
    rcases findsNone_or_firstFile w (candidatesIn dir name) with hnone | ⟨l, hfirst⟩
    · rcases ih with hall | ⟨dir', l, before, after, rfl, hbefore, hfirst⟩
      · exact Or.inl (List.forall_mem_cons.2 ⟨hnone, hall⟩)
      · exact Or.inr ⟨dir', l, dir :: before, after, rfl,
          List.forall_mem_cons.2 ⟨hnone, hbefore⟩, hfirst⟩
    · exact Or.inr ⟨dir, l, [], dirs, rfl, nofun, hfirst⟩

theorem TakenFrom.resolve {dir : String} {l : Location} (hs : Searched name)
    (h : w.TakenFrom name p.dirs dir l) : w.resolve p name = .ok l.path := by
  obtain ⟨before, after, hdirs, hbefore, hfirst⟩ := h
  have hp : p = ({ dirs := before } : SearchPath).extend
      (({ dirs := [dir] } : SearchPath).extend after).dirs := congrArg SearchPath.mk hdirs
  have hnone : w.resolve { dirs := before } name = .error (.notFound name) :=
    (resolve_eq_error_iff hs).2 ⟨rfl, hbefore⟩
  have hdir : w.resolve { dirs := [dir] } name = .ok l.path :=
    (resolve_singleton_eq_ok_iff hs).2 ⟨l, hfirst, rfl⟩
  rw [hp, resolve_extend hs, hnone]
  exact (resolve_extend hs w { dirs := [dir] } { dirs := after }).trans (by rw [hdir])

theorem resolve_eq_ok_iff_first (hs : Searched name) :
    w.resolve p name = .ok path ↔ ∃ dir l, w.TakenFrom name p.dirs dir l ∧ path = l.path := by
  constructor
  · intro h
    rcases findsNone_or_takenFrom w name p.dirs with hnone | ⟨dir, l, htaken⟩
    · rw [(resolve_eq_error_iff hs).2 ⟨rfl, hnone⟩] at h
      cases h
    · rw [htaken.resolve hs] at h
      exact ⟨dir, l, htaken, (Except.ok.inj h).symm⟩
  · rintro ⟨dir, l, htaken, rfl⟩
    exact htaken.resolve hs

end World

namespace CommandLine

/-! ### Three steps -/

theorem dirs_foldr_prepend (dirs : List String) (p : SearchPath) :
    (dirs.foldr (fun dir p => p.prepend dir) p).dirs = dirs ++ p.dirs := by
  induction dirs with
  | nil => rfl
  | cons dir dirs ih => exact congrArg (dir :: ·) ih

/-- The directories in the variable `name`; there are none if it is not set. -/
def variableDirs (e : Environment) (name : String) : List String :=
  match e.value? name with
  | some value => (SearchPath.ofValue value).dirs
  | none => []

theorem dirs_create (config : LoaderConfig) (e : Environment) :
    (Host.create config e).searchPath.dirs
      = variableDirs e config.envVar ++ config.searchPaths := by
  unfold Host.create variableDirs
  cases e.value? config.envVar <;> rfl

theorem hostOf_eq {w : World} {r : Request} {config : LoaderConfig}
    (h : configOf w r = .ok config) :
    hostOf w r = .ok { Host.create config w.environment with
      searchPath := { dirs := r.searchDirs
        ++ (variableDirs w.environment config.envVar ++ config.searchPaths) } } := by
  have hdirs := dirs_foldr_prepend r.searchDirs (Host.create config w.environment).searchPath
  rw [dirs_create] at hdirs
  have hpath := congrArg SearchPath.mk hdirs
  rw [hostOf, h]
  exact congrArg
    (fun p => Except.ok { Host.create config w.environment with searchPath := p }) hpath

/-! ### The order in which everything was said -/

/-- The directories of a value are its maximal pieces without a separator that are not empty, in
order; so values that are joined by a separator hold the directories of both, and directories that
are joined by separators are found again.  A command line can say any directories, with the switch
in any of its forms and on either side of the name of the command; what is said behind the name
takes the place of what is said in front of it.  The host that the command line asks for has these
directories in its search path, behind them the ones of the variable and behind these the configured
ones, each as often as it is said.  A module is taken from the first directory of them that has
it. -/
theorem search_path_in_order :
    (∀ value : String, ∃ located : List (Nat × List Char), located.Pairwise (·.1 < ·.1)
        ∧ (∀ start piece, (start, piece) ∈ located
          ↔ SearchPath.MaximalPiece value.toList start piece)
        ∧ (SearchPath.ofValue value).dirs = located.map fun piece => String.ofList piece.2)
      ∧ (∀ v₁ v₂ : String, (SearchPath.ofValue (v₁ ++ ":" ++ v₂)).dirs
        = (SearchPath.ofValue v₁).dirs ++ (SearchPath.ofValue v₂).dirs)
      ∧ (∀ dirs : List String, (∀ dir ∈ dirs, dir ≠ "" ∧ SearchPath.separator ∉ dir.toList) →
        (SearchPath.ofValue (String.intercalate ":" dirs)).dirs = dirs)
      ∧ (∀ (dirs : List String) (verb : Verb) (name : String), verb.takesPath = false →
        name.toList.head? ≠ some '-' →
        ∃ r, Request.ofArguments (dirs.map includeArgument ++ [verb.name, name]) = .ok r
          ∧ r.searchDirs = dirs)
      ∧ (∀ (front between after dirs dirs₁ dirs₂ : List String) (verb : Verb) (name : String),
        verb.takesPath = false → name.toList.head? ≠ some '-' →
        Says front dirs → Says between dirs₁ → Says after dirs₂ →
        ∃ r, Request.ofArguments (front ++ verb.name :: (between ++ name :: after)) = .ok r
          ∧ r.searchDirs = if (dirs₁ ++ dirs₂).isEmpty then dirs else dirs₁ ++ dirs₂)
      ∧ ∀ (w : World) (r : Request) (config : LoaderConfig), configOf w r = .ok config →
        ∃ host, hostOf w r = .ok host
          ∧ host.searchPath.dirs = r.searchDirs ++ variableDirs w.environment config.envVar
            ++ config.searchPaths
          ∧ ∀ name path, World.Searched name → (w.resolve host.searchPath name = .ok path
            ↔ ∃ dir l, w.TakenFrom name host.searchPath.dirs dir l ∧ path = l.path) := by
  refine ⟨?_, ?_, ?_, ?_, ?_, ?_⟩
  · intro value
    obtain ⟨located, hsorted, hpieces, hwords⟩ := SearchPath.exists_located value.toList
    refine ⟨located, hsorted, hpieces, ?_⟩
    rw [SearchPath.dirs_ofValue, hwords, List.map_map]
    rfl
  · intro v₁ v₂
    rw [SearchPath.ofValue_append]
    rfl
  · intro dirs hdirs
    rw [SearchPath.ofValue_intercalate hdirs]
  · intro dirs verb name hverb hname
    exact ofArguments_said hverb hname (says_includeArguments dirs) .nil .nil
  · intro front between after dirs dirs₁ dirs₂ verb name hverb hname hfront hbetween hafter
    exact ofArguments_said hverb hname hfront hbetween hafter
  · intro w r config hconfig
    refine ⟨_, hostOf_eq hconfig, (List.append_assoc ..).symm, ?_⟩
    intro name path hsearched
    exact World.resolve_eq_ok_iff_first hsearched

namespace Said

def config : LoaderConfig := { searchPaths := ["/b", "/c"] }

/-- The directory `a` is empty, a module stands in `b`, and a configuration in the root. -/
def world : World where
  files := { entries := [(["a"], .directory), (["b"], .directory), (["b", "m.nlb"], .directory),
    (["b", "m.nl"], .file []), (["s.toml"], .file (Bytes.ofText config.render))] }
  environment := .ofPairs [("NLLIB", ":/b::/c")]

def request : Request :=
  { searchDirs := ["/a"], configFile := some "/s.toml", command := .resolve "m" }

theorem configOf_request : configOf world request = .ok config := by
  have hname : Path.IsName "s.toml" := ⟨by decide, by decide, by decide, by decide, by decide⟩
  have hfile : world.files.entryAt? ([] ++ ["s.toml"])
      = some (.file (Bytes.ofText config.render)) := rfl
  have hopen := FileTree.openEntry_path (FileTree.directoryAt_root world.files) hname hfile nofun
    (by decide) world.cwd
  have hpath : Location.path ([] ++ ["s.toml"]) = "/s.toml" := by decide
  rw [hpath] at hopen
  have hcontents : world.files.contentsOf world.cwd "/s.toml"
      = .ok (Bytes.ofText config.render) := by
    rw [FileTree.contentsOf, hopen]
    rfl
  have hload : LoaderConfig.load world.files world.cwd "/s.toml" = .ok config := by
    apply LoaderConfig.load_of_contentsOf hcontents
    rw [← LoaderConfig.renderWithout_nil, LoaderConfig.parse?_renderWithout,
      LoaderConfig.without_nil]
  show (LoaderConfig.load world.files world.cwd "/s.toml").mapError _ = _
  rw [hload]
  rfl

theorem variableDirs_world : variableDirs world.environment config.envVar = ["/b", "/c"] := by
  have hvalue : world.environment.value? config.envVar = some ":/b::/c" := by decide
  rw [variableDirs, hvalue]
  decide

theorem takenFrom_b :
    world.TakenFrom "m" ["/a", "/b", "/c", "/b", "/c"] "/b" ["b", "m.nl"] := by
  refine ⟨["/a"], ["/c", "/b", "/c"], rfl, fun dir hdir => ?_, ?_⟩
  · rw [List.mem_singleton.1 hdir]
    exact World.Overlooked.findsNone_of_vacant rfl (by decide)
  · exact World.Overlooked.firstFile_of_directory rfl rfl
      (show world.files.entryAt? ["b", "m.nl"] = some (.file []) from rfl)

end Said

/-- Switch, variable and configuration name five directories, and the module stands in the second
and in the fourth. -/
theorem search_path_in_order_said :
    (SearchPath.ofValue "/b:/c").dirs = ["/b", "/c"]
      ∧ (∃ r, Request.ofArguments ["--include=/a", "--include=/a", "run", "m"] = .ok r
        ∧ r.searchDirs = ["/a", "/a"])
      ∧ (∃ r, Request.ofArguments ["-I", "/c", "run", "-I/a", "m", "--include", "/b"] = .ok r
        ∧ r.searchDirs = ["/a", "/b"])
      ∧ ∃ host, hostOf Said.world Said.request = .ok host
        ∧ host.searchPath.dirs = ["/a", "/b", "/c", "/b", "/c"]
        ∧ Said.world.resolve host.searchPath "m" = .ok "/b/m.nl" := by
  obtain ⟨-, -, hjoined, hsaid, hsides, hhost⟩ := search_path_in_order
  have hfront : Says ["-I", "/c"] ["/c"] := .apart (by decide) (by decide) .nil
  have hbetween : Says ["-I/a"] ["/a"] := .attached (.letter (by decide) (by decide)) .nil
  have hafter : Says ["--include", "/b"] ["/b"] := .apart (by decide) (by decide) .nil
  refine ⟨hjoined ["/b", "/c"] (by decide), hsaid ["/a", "/a"] .run "m" rfl (by decide),
    hsides _ _ _ _ _ _ .run "m" rfl (by decide) hfront hbetween hafter, ?_⟩
  obtain ⟨host, hhost, hdirs, hresolve⟩ := hhost _ _ _ Said.configOf_request
  have hfive : host.searchPath.dirs = ["/a", "/b", "/c", "/b", "/c"] := by
    rw [hdirs, Said.variableDirs_world]
    rfl
  refine ⟨host, hhost, hfive, (hresolve "m" _ (by decide)).2 ⟨"/b", ["b", "m.nl"], ?_, by decide⟩⟩
  rw [hfive]
  exact Said.takenFrom_b

end CommandLine

end ModuleHost
