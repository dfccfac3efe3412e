import ModuleHost.Proofs.Modules.Simulation

/-!
# Modules are loaded depth first

On a fresh host whose search path is the directory of a graph of modules, requiring a module loads
the modules that it needs, directly or through others, each once and each behind those that it
requires itself.  Modules that require each other in a circle do no harm.
-/

namespace ModuleHost

theorem Stage.fresh (g : ModuleGraph) (config : LoaderConfig) (l : Location) (w : World) :
    Stage g config l w {} [] [] w where
  started := by simp
  apart := by simp
  nodup := List.nodup_nil
  named := by simp
  filenames := rfl
  available := .refl config w
  numbers := Nat.le_add_right _ _

/-- The modules that can be reached from the first one are loaded in depth-first order. -/
theorem require_depth_first {g : ModuleGraph} {config : LoaderConfig} {dir start : String}
    {l : Location} {w : World} {t : Traversal} (hi : Installed g config dir l w)
    (hstart : start ∈ g.names) (hvisit : g.visit Host.maxDepth {} start = some t)
    (environment : Environment) :
    ∃ n m, ((Machine.idle { Host.create config environment with searchPath := { dirs := [dir] } }
          w).require start).run n = m
      ∧ m.isDone = true ∧ m.loaded? = some (.ok true)
      ∧ (∀ x, x ∈ t.finished ↔ g.Reaches start x) ∧ t.finished.Nodup
      ∧ (m.host.units.map CodeUnit.filename).Perm (t.finished.map fun x => some (modulePath l x))
      ∧ m.host.output = t.finished
      ∧ m.host.ledger.loaded.entries = t.finished.map (modulePath l)
      ∧ m.host.ledger.loading.entries = []
      ∧ m.world.files = w.files := by
  obtain ⟨hnodup, hperm, hreach⟩ := ModuleGraph.visit_order hvisit
  obtain ⟨units, n, _, hs, k, hrun⟩ := Machine.runsVisits hi Host.maxDepth (by decide)
    (Stage.fresh g config l w) hstart hvisit [] (.returning .nil) []
  refine ⟨k, _, hrun, rfl, rfl, hreach, hnodup, ?_, rfl, rfl, rfl, rfl⟩
  have hunits : units.map CodeUnit.filename = t.started.map fun x => some (modulePath l x) :=
    hs.filenames
  show (([] ++ units).map CodeUnit.filename).Perm _
  rw [List.nil_append, hunits]
  exact hperm.symm.map _

/-! ### Two modules that require each other -/

namespace Circle

def graph : ModuleGraph where
  names := ["a", "b"]
  requires m := if m = "a" then ["b"] else ["a"]
  nodup := by decide
  named := by decide
  closed := by decide

def world : World where
  files := { entries := [
    (["lib"], .directory),
    (["lib", "a.nl"], .file (Bytes.ofText (Assembly.sourceOf (graph.calls "a")))),
    (["lib", "b.nl"], .file (Bytes.ofText (Assembly.sourceOf (graph.calls "b")))),
    (["tmp"], .directory)] }

def config : LoaderConfig := { tempDir := some "/tmp" }

theorem isName {name : String} (h : name ∈ ["lib", "tmp"]) : Path.IsName name := by
  have hcases : name = "lib" ∨ name = "tmp" := by simpa using h
  rcases hcases with rfl | rfl <;> exact ⟨by decide, by decide, by decide, by decide, by decide⟩

theorem directoryAt {name : String} (h : name ∈ ["lib", "tmp"]) :
    FileTree.DirectoryAt world.files [name] := by
  refine ⟨fun other ho => List.mem_singleton.1 ho ▸ isName h, ?_⟩
  intro n hn
  have hcases : name = "lib" ∨ name = "tmp" := by simpa using h
  have hn' : n = 0 ∨ n = 1 := by
    rw [List.length_singleton] at hn
    omega
  rcases hcases with rfl | rfl <;> rcases hn' with rfl | rfl <;> rfl

theorem createArtifact {n : Nat} (hn : n < 32) :
    ∃ a, (World.createArtifact { world with nextArtifact := world.nextArtifact + n } config).1
      = .ok a := by
  have hdigits : ∀ n < 32, (toString n).utf8ByteSize ≤ 2 ∧ '\x00' ∉ (toString n).toList
      ∧ '/' ∉ (toString n).toList := by decide +kernel
  obtain ⟨hsize, hnul, hslash⟩ := hdigits n hn
  have hname : Path.IsName ("nlreq.1." ++ toString n) := by
    have hletter : 'n' ∈ ("nlreq.1." ++ toString n).toList := by
      rw [String.toList_append, List.mem_append]
      exact Or.inl (by decide)
    obtain ⟨hidle, hup⟩ := Path.isIdle_of_mem hletter (by decide)
    refine ⟨hidle, hup, ?_, ?_, ?_⟩
    · rw [String.toList_append, List.mem_append]
      exact not_or.2 ⟨by decide, hslash⟩
    · rw [String.toList_append, List.mem_append]
      exact not_or.2 ⟨by decide, hnul⟩
    · have hbytes : "nlreq.1.".utf8ByteSize = 8 := by decide
      rw [String.utf8ByteSize_append, hbytes, FileTree.maxNameBytes]
      omega
  have hpath : world.artifactPath config n
      = Location.path (["tmp"] ++ ["nlreq.1." ++ toString n]) := by
    have habsolute : Path.isAbsolute ("nlreq." ++ toString 1 ++ "." ++ toString n) = false :=
      Path.isAbsolute_append (by decide) _
    show Path.join "/tmp" ("nlreq." ++ toString 1 ++ "." ++ toString n) = _
    rw [Path.join, habsolute, Location.path]
    rfl
  have hshort : (Location.path (["tmp"] ++ ["nlreq.1." ++ toString n])).utf8ByteSize
      < FileTree.pathByteLimit := by
    have hbytes : "/tmp/nlreq.1.".utf8ByteSize = 13 := by decide
    have heq : Location.path (["tmp"] ++ ["nlreq.1." ++ toString n])
        = "/tmp/nlreq.1." ++ toString n := by
      show "/" ++ ("tmp" ++ "/" ++ ("nlreq.1." ++ toString n)) = _
      simp only [← String.append_assoc]
      rfl
    rw [heq, String.utf8ByteSize_append, hbytes, FileTree.pathByteLimit]
    omega
  have hin := FileTree.inDirectory_path (directoryAt (by decide)) hname hshort world.cwd
  rw [← hpath] at hin
  have hvacant : world.files.entryAt? (["tmp"] ++ [FileTree.lastName (world.artifactPath config n)])
      = none := by
    rw [FileTree.entryAt?, if_neg (by simp)]
    simp [world, List.lookup_cons]
  have hzero : world.nextArtifact + n = n := Nat.zero_add n
  rw [hzero]
  exact World.exists_createArtifact hin hvacant

theorem installed : Installed graph config "/lib" ["lib"] world where
  leads := by
    rw [FileTree.canonicalize_eq_ok_iff]
    have hpieces : Path.pieces "/lib" = ["", "lib"] := by decide +kernel
    have hlooks : FileTree.LooksUp .locate [] "lib" [] :=
      ⟨by decide, by decide, by decide, by decide +kernel⟩
    have hdir : world.files.entryAt? ([] ++ ["lib"]) = some .directory := rfl
    show world.files.follow .locate FileTree.maxLinks [] (Path.pieces "/lib") = _
    rw [hpieces, FileTree.follow_idle rfl rfl, FileTree.follow_entry rfl hlooks (by simp) hdir,
      FileTree.follow]
    rfl
  directory := directoryAt (by decide)
  source := by
    intro m hm
    refine ⟨_, ?_, graph.makesCalls_sourceOf hm⟩
    have hcases : m = "a" ∨ m = "b" := by simpa [graph] using hm
    rcases hcases with rfl | rfl <;> rfl
  alone := by
    intro m hm kind hk
    have hcases : m = "a" ∨ m = "b" := by simpa [graph] using hm
    rcases hcases with rfl | rfl <;> cases kind <;> first | rfl | exact absurd rfl hk
  nameShort := by decide
  pathShort := by decide +kernel
  bodyShort := by decide +kernel
  temporary := fun n hn => createArtifact hn

end Circle

theorem require_depth_first_circle :
    ∃ n m, ((Machine.idle { Host.create Circle.config {} with searchPath := { dirs := ["/lib"] } }
          Circle.world).require "a").run n = m
      ∧ m.isDone = true ∧ m.host.output = ["b", "a"] := by
  have hvisit : Circle.graph.visit Host.maxDepth {} "a"
      = some { started := ["a", "b"], finished := ["b", "a"] } := by decide +kernel
  obtain ⟨n, m, hrun, hdone, _, _, _, _, houtput, _⟩ :=
    require_depth_first Circle.installed (by decide) hvisit {}
  exact ⟨n, m, hrun, hdone, houtput⟩

end ModuleHost
