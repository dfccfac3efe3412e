import ModuleHost.Proofs.Loading.Kinds
import ModuleHost.Proofs.Machine.Outcome

/-!
# Loaders for what is found

A file that is found through the suffix of a kind is handed to the loader for that kind, unless the
candidate is a symbolic link or its name begins with the suffix (`dispatch_agrees_with_search`).
The loaders themselves never find that a file is of no kind (`not_refusesKind_loadAs`).
-/

namespace ModuleHost

def LoadError.isUnknownKind : LoadError → Bool
  | unknownKind .. => true
  | _ => false

namespace Machine

variable {m : Machine} {l : Load} {path : String}

def loadAs (m : Machine) (l : Load) (path : String) : ModuleKind → Machine
  | .compiled => m.loadBytecode l path path
  | .source => m.loadSource l path
  | .native => m.loadNative l path

theorem dispatch_of_ofPath {k : ModuleKind} (h : ModuleKind.ofPath path = .ok k) (m : Machine)
    (l : Load) : m.dispatch l path = m.loadAs l path k := by
  rw [dispatch, h]
  cases k <;> rfl

def RefusesKind (m : Machine) : Prop :=
  ∃ n path reason, (m.run n).stack = []
    ∧ (m.run n).control = .failing (.unknownKind path reason)

theorem not_refusesKind_failLoad (hstack : m.stack = []) (l : Load) {e : LoadError}
    (he : e.isUnknownKind = false) : ¬ (m.failLoad l e).RefusesKind := by
  rintro ⟨n, path, reason, -, hcontrol⟩
  rw [run_failLoad hstack, failLoad_eq] at hcontrol
  rw [Control.failing.inj hcontrol] at he
  cases he

/-- What runs during a load can only raise an exception. -/
theorem not_refusesKind_above_load (y : Machine) (l : Load) :
    ¬ (y.above [.load l]).RefusesKind := by
  rintro ⟨n, path, reason, hstack, hcontrol⟩
  obtain ⟨k, j, hx, ⟨v, hv⟩ | ⟨e, he⟩⟩ := exists_of_run_above hstack
  · rw [hv, returnTo, run_finishLoad hx, finishLoad_eq] at hcontrol
    cases hcontrol
  · rw [he, raiseTo, run_failLoad hx, failLoad_eq] at hcontrol
    cases hcontrol

theorem not_refusesKind_loadStream (hstack : m.stack = []) (l : Load) (path attribution : String)
    (stream : Except Bytecode.StreamFault (List UInt8)) :
    ¬ (m.loadStream l path attribution stream).RefusesKind := by
  cases hr : Bytecode.readStream stream with
  | ok units =>
    rw [loadStream_of_ok _ _ hr, push_eq_above, enterTopLevel_above, hstack]
    exact not_refusesKind_above_load _ l
  | error e =>
    rw [loadStream_of_error _ _ hr]
    refine not_refusesKind_failLoad ?_ l ?_
    · exact hstack
    · cases (Host.pendingFor? e).or m.host.pending <;> rfl

theorem not_refusesKind_loadCompiledUnits (hstack : m.stack = []) (l : Load) (path : String)
    (units : List CodeUnit) : ¬ (m.loadCompiledUnits l path units).RefusesKind := by
  unfold loadCompiledUnits
  split
  · apply not_refusesKind_loadStream
    exact hstack
  · exact not_refusesKind_failLoad hstack l rfl

theorem not_refusesKind_compileAndLoad (hstack : m.stack = []) (l : Load) (path source : String) :
    ¬ (m.compileAndLoad l path source).RefusesKind := by
  unfold compileAndLoad
  cases Assembly.assemble source path with
  | error e => exact not_refusesKind_failLoad hstack l rfl
  | ok units =>
    dsimp only
    split
    · rw [push_eq_above, enterTopLevel_above,
        show Machine.stack { m with host := m.host.isolated.appendUnits units } = [] from hstack]
      rintro ⟨n, path', reason, hend, hcontrol⟩
      obtain ⟨k, j, hx, hrun⟩ := exists_of_run_above hend
      generalize run k _ = x at hx hrun
      obtain ⟨v, hv⟩ | ⟨e, he⟩ := hrun
      · -- the compiled units are loaded into the host that has waited
        rw [hv, returnTo] at hend hcontrol
        exact @not_refusesKind_loadCompiledUnits { x with host := m.host } hx l path x.host.units
          ⟨j, path', reason, hend, hcontrol⟩
      · rw [he, raiseTo] at hend hcontrol
        exact @not_refusesKind_failLoad { x with host := m.host } hx l (.uncompiled path e.text)
          rfl ⟨j, path', reason, hend, hcontrol⟩
    · exact not_refusesKind_loadCompiledUnits hstack l path units

/-- A loader takes the file for what it is said to be. -/
theorem not_refusesKind_loadAs (hstack : m.stack = []) (l : Load) (path : String)
    (k : ModuleKind) : ¬ (m.loadAs l path k).RefusesKind := by
  cases k with
  | compiled =>
    rw [loadAs, loadBytecode]
    split
    · exact not_refusesKind_loadStream hstack l path path _
    · exact not_refusesKind_failLoad hstack l rfl
  | source =>
    rw [loadAs, loadSource]
    split
    · exact not_refusesKind_failLoad hstack l rfl
    · split
      · refine not_refusesKind_failLoad ?_ l rfl
        exact hstack
      · apply not_refusesKind_compileAndLoad
        exact hstack
  | native => exact not_refusesKind_failLoad hstack l rfl

end Machine

open World

/-- A name without an extension that is found is found through the suffix of one kind.  The file
then has the kind of its own name, all links being followed: the kind whose suffix stands in that
name behind something else.  If the name that was searched for is not empty and does not end in a
slash, and the candidate is not itself a symbolic link, this is the kind of the suffix: the file is
handed to the loader for this kind and is never refused as a module of no kind. -/
theorem dispatch_agrees_with_search (w : World) (p : SearchPath) {name : String}
    (hrelative : Path.isAbsolute name = false)
    (hsuffixes : ModuleKind.candidateSuffixes name = ModuleKind.all.map ModuleKind.suffix) :
    (∀ path, w.resolve p name = .ok path →
        ∃ k candidate l, w.FoundThrough p name k candidate l ∧ path = l.path)
      ∧ ∀ k candidate l, w.FoundThrough p name k candidate l →
        w.resolve p name = .ok l.path
          ∧ (w.files.WellFormed → ∃ directory file, l = directory ++ [file] ∧ ∀ k',
              ModuleKind.ofPath l.path = .ok k' ↔ ∃ stem, stem ≠ "" ∧ file = stem ++ k'.suffix)
          ∧ (name ≠ "" → name.toList.getLast? ≠ some '/' → ¬ w.files.NamesLink w.cwd candidate →
              ModuleKind.ofPath l.path = .ok k
                ∧ ∀ m load, Machine.dispatch m load l.path = m.loadAs load l.path k
                  ∧ (m.stack = [] → ¬ (m.dispatch load l.path).RefusesKind)) := by
  refine ⟨fun path hresolve => exists_foundThrough hrelative hsuffixes hresolve, ?_⟩
  intro k candidate l hfound
  refine ⟨hfound.resolve hrelative, fun hw => hfound.finds.ofPath hw, ?_⟩
  intro hne hslash hlink
  have hkind := hfound.ofPath hne hslash hlink
  refine ⟨hkind, fun m load => ?_⟩
  have hdispatch := Machine.dispatch_of_ofPath hkind m load
  refine ⟨hdispatch, fun hstack => ?_⟩
  rw [hdispatch]
  exact Machine.not_refusesKind_loadAs hstack load l.path k

/-! ### Links and empty names -/

namespace Misnamed

/-- In `lib` there are a file of source text, a link to it that has the suffix of bytecode, and a
file whose name is nothing but a suffix. -/
def world : World where
  files := { entries := [(["lib"], .directory), (["lib", "a.nlb"], .link "b.nl"),
    (["lib", "b.nl"], .file []), (["lib", ".nlb"], .file [])] }

def searchPath : SearchPath where
  dirs := ["/lib"]

theorem canonicalize_link : world.files.canonicalize [] "/lib/a.nlb" = .ok ["lib", "b.nl"] := by
  have hnames : HasNames "/lib/a.nlb" "lib" "a.nlb" := by decide
  have htarget : HasNames "/lib/b.nl" "lib" "b.nl" := by decide
  have hlink : world.files.entryAt? (["lib"] ++ ["a.nlb"]) = some (.link "b.nl") := by decide
  rw [FileTree.canonicalize_eq_ok_iff, hnames.place (by decide), FileTree.maxLinks,
    FileTree.follow_link (by decide) hnames.looksUp hlink, if_neg (by decide),
    show Path.pieces "b.nl" ++ [] = ["b.nl"] by decide,
    FileTree.follow_entry (e := .file []) (by decide) htarget.looksUp nofun (by decide),
    FileTree.follow]
  rfl

theorem foundThrough_link :
    world.FoundThrough searchPath "a" .compiled "/lib/a.nlb" ["lib", "b.nl"] where
  suffixed := ⟨"/lib", by decide, by decide⟩
  first := ⟨[], ["/lib/a.nl", "/lib/a.so"], by decide, nofun⟩
  finds := ⟨canonicalize_link, [], by decide⟩

theorem foundThrough_suffix :
    world.FoundThrough searchPath "" .compiled "/lib/.nlb" ["lib", ".nlb"] where
  suffixed := ⟨"/lib", by decide, by decide⟩
  first := ⟨[], ["/lib/.nl", "/lib/.so"], by decide, nofun⟩
  finds := by
    have hnames : HasNames "/lib/.nlb" "lib" ".nlb" := by decide
    exact ⟨hnames.canonicalize (e := .file []) (by decide) (by decide) nofun _, [], by decide⟩

theorem foundThrough_source :
    world.FoundThrough searchPath "b" .source "/lib/b.nl" ["lib", "b.nl"] where
  suffixed := ⟨"/lib", by decide, by decide⟩
  first := by
    have hnames : HasNames "/lib/b.nlb" "lib" "b.nlb" := by decide
    refine ⟨["/lib/b.nlb"], ["/lib/b.so"], by decide, fun candidate hmem => ?_⟩
    cases List.mem_singleton.1 hmem
    exact hnames.not_findsFile_of_vacant (by decide) (by decide)
  finds := by
    have hnames : HasNames "/lib/b.nl" "lib" "b.nl" := by decide
    exact ⟨hnames.canonicalize (e := .file []) (by decide) (by decide) nofun _, [], by decide⟩

theorem not_namesLink : ¬ world.files.NamesLink world.cwd "/lib/b.nl" := by
  rintro ⟨before, name, directory, target, hpieces, hleads, hlink⟩
  have hsplit : ["", "lib"] ++ ["b.nl"] = before ++ [name] := hpieces
  obtain ⟨rfl, hname⟩ := List.append_inj' hsplit rfl
  cases hname
  have hlib : world.files.Leads ["lib"] [] ["", "lib"] :=
    .idle (by decide) (by decide) (.entry (e := .directory) (by decide) (by decide) (by decide)
      nofun (by decide) .nil)
  cases hlib.unique hleads
  have hfile : world.files.entryAt? ["lib", "b.nl"] = some (.file []) := by decide
  cases hfile.symm.trans hlink

end Misnamed

/-- The suffix through which a file is found need not be that of its kind: through the suffix of
bytecode a link leads to source text, and an empty name to a file of no kind. -/
theorem dispatch_disagrees_with_search :
    (ModuleKind.candidateSuffixes "a" = ModuleKind.all.map ModuleKind.suffix
        ∧ Misnamed.world.FoundThrough Misnamed.searchPath "a" .compiled "/lib/a.nlb" ["lib", "b.nl"]
        ∧ ModuleKind.ofPath (Location.path ["lib", "b.nl"]) = .ok .source)
      ∧ ModuleKind.candidateSuffixes "" = ModuleKind.all.map ModuleKind.suffix
        ∧ Misnamed.world.FoundThrough Misnamed.searchPath "" .compiled "/lib/.nlb" ["lib", ".nlb"]
        ∧ ModuleKind.ofPath (Location.path ["lib", ".nlb"]) = .error .noExtension
        ∧ ((Machine.idle {} Misnamed.world).dispatch { arenaMark := 0 } "/lib/.nlb").control
          = .failing (.unknownKind "/lib/.nlb" .noExtension) :=
  ⟨⟨by decide, Misnamed.foundThrough_link, by decide⟩, by decide, Misnamed.foundThrough_suffix,
    by decide, by decide⟩

theorem dispatch_agrees_with_search_source :
    Misnamed.world.resolve Misnamed.searchPath "b" = .ok "/lib/b.nl"
      ∧ ModuleKind.ofPath "/lib/b.nl" = .ok .source
      ∧ ∀ m load, Machine.dispatch m load "/lib/b.nl" = m.loadSource load "/lib/b.nl" := by
  obtain ⟨-, hfound⟩ := dispatch_agrees_with_search Misnamed.world Misnamed.searchPath
    (show Path.isAbsolute "b" = false by decide) (by decide)
  obtain ⟨hresolve, -, hagrees⟩ := hfound _ _ _ Misnamed.foundThrough_source
  obtain ⟨hkind, hdispatch⟩ := hagrees (by decide) (by decide) Misnamed.not_namesLink
  exact ⟨hresolve, hkind, fun m load => (hdispatch m load).1⟩

end ModuleHost
