import ModuleHost.Proofs.Machine.Compilers
import ModuleHost.Proofs.Session.Precompiled

/-!
# What is seen of a compilation

A compiler that runs what it compiles runs it in a host of its own.  Whatever the code does there,
the host that waits has nothing of it but the exception that it may end with (`CompiledApart`).  So
a source comes to the same as under a compiler that runs nothing, as long as none of the code that
is compiled on the way raises an exception (`compilation_isolated`).  It is not enough that the code
of the source itself raises none: it may load another source, whose code raises an exception in a
host of its own though not in the one that loads it (`Again`).
-/

namespace ModuleHost

open Machine

namespace Machine

/-- The host `h` has the source at the path compiled to the units `us` in the world `w'`, and has
nothing of it but how it ends. -/
structure CompiledApart (h : Host) (w w' : World) (path : String) (a : Artifact)
    (us : List CodeUnit) : Prop where
  /-- Until the code has come to its end, the host waits below as it was. -/
  waits : ∀ n, ((startApart h w' us).run n).isDone = false →
    (startSource h w path).run n = ((startApart h w' us).run n).above
      [.compilation { load := artifactLoad h a, path, outer := h }]
  /-- When the code has returned, the host goes on with the units as they were compiled. -/
  returned : ∀ n value, ((startApart h w' us).run n).isDone = true →
    ((startApart h w' us).run n).control = .returning value →
    ∃ k, (startSource h w path).run k = (idle h w').loadCompiledUnits (artifactLoad h a) path us
  /-- When it has raised an exception, nothing has changed. -/
  raised : ∀ n e, ((startApart h w' us).run n).isDone = true →
    ((startApart h w' us).run n).value? = some (.error e) →
    ∃ k, let m := (startSource h w path).run k
      m.isDone = true ∧ m.loaded? = some (.error (.uncompiled path e.text)) ∧ m.host = h
        ∧ m.world.files = w.files

variable {h : Host} {w w' : World} {path source : String} {a : Artifact} {us : List CodeUnit}

theorem isolated_startApart (h : Host) (w : World) (us : List CodeUnit) (n : Nat) :
    ((startApart h w us).run n).Isolated us w :=
  ((isolated_idle h w us).enter 0 .topLevel [] .main).run n

theorem compiledApart (hcompiler : h.compiler = .always) (hread : w.readText path = .ok source)
    (hcreate : w.createArtifact h.config = (.ok a, w'))
    (hunits : Assembly.assemble source path = .ok us) : CompiledApart h w w' path a us := by
  have hstart := startSource_eq_above hcompiler hread hcreate hunits
  refine ⟨fun n hn => ?_, fun n value hdone hvalue => ?_, fun n e hdone he => ?_⟩
  · rw [hstart]
    exact run_above_of_not_isDone hn _
  · obtain ⟨k, hk⟩ := exists_run_above_eq hdone
      [.compilation { load := artifactLoad h a, path, outer := h }]
    refine ⟨k + 1, ?_⟩
    rw [hstart, run_succ', hk]
    exact step_compiled (m := idle h w') (isolated_startApart h w' us n) hdone hvalue _ path
  · obtain ⟨k, hk⟩ := exists_run_above_eq hdone
      [.compilation { load := artifactLoad h a, path, outer := h }]
    have hstarted : (startSource h w path).Carries h.config w :=
      (carries_idle h w).handed (loadSource_handed _ _ path)
    have hcarries := hstarted.run (k + 1)
    have hend : (startSource h w path).run (k + 1)
        = (idle h w').failLoad (artifactLoad h a) (.uncompiled path e.text) := by
      rw [hstart, run_succ', hk]
      exact step_uncompiled (m := idle h w') (isolated_startApart h w' us n) hdone he _ path
    have hfail := failLoad_eq (idle h w') (artifactLoad h a) (.uncompiled path e.text)
    refine ⟨k + 1, ?_, ?_, ?_, hcarries.files_eq ?_⟩
    · rw [hend, hfail]
      rfl
    · rw [hend, hfail]
      rfl
    · rw [hend, hfail]
      exact h.restoreArena_length
    · exact (congrArg Machine.stack hend).trans (congrArg Machine.stack hfail)

/-- If nothing is compiled while the units run, it is enough that their own code returns. -/
theorem compiles_startSource (hcompiler : h.compiler = .always) (hread : w.readText path = .ok source)
    (hcreate : w.createArtifact h.config = (.ok a, w'))
    (hunits : Assembly.assemble source path = .ok us) {bytes : List UInt8}
    (hwrite : Bytecode.write? us = some bytes) {n : Nat} {value : Value}
    (hdone : ((startApart h w' us).run n).isDone = true)
    (hvalue : ((startApart h w' us).run n).control = .returning value)
    (hquiet : ∀ k c, .compilation c ∉
      ((startLoad h (w'.writeArtifact a bytes) path us (some a)).run k).stack) (k : Nat) :
    ((startSource h w path).run k).Compiles := by
  have hback := read_of_assemble hunits (World.ne_empty_of_readText hread) hwrite
  have hisolated := isolated_startApart h w' us
  -- as long as the code runs, what it comes to is what it comes to in the end
  have hcompiled : ∀ j, (((startApart h w' us).run j).above
      [.compilation { load := artifactLoad h a, path, outer := h }]).Compiles := by
    intro j
    have hend : ((startApart h w' us).run j).run n = (startApart h w' us).run n := by
      rw [← run_add, Nat.add_comm, run_add, run_of_isDone hdone]
    exact compiles_above (hisolated j).calls (hend ▸ hdone) (hend ▸ hvalue) _ _
  rw [startSource_eq_above hcompiler hread hcreate hunits]
  rcases run_above_cases (startApart h w' us)
    [.compilation { load := artifactLoad h a, path, outer := h }] k with ⟨-, hrun⟩ | ⟨j, -, hj, hrun⟩
  · rw [hrun]
    exact hcompiled k
  · rw [hrun]
    have hsame : (startApart h w' us).run j = (startApart h w' us).run n :=
      run_eq_run_of_isDone hj hdone
    cases k - j with
    | zero => exact hcompiled j
    | succ i =>
      have hstep : (((startApart h w' us).run j).above
          [.compilation { load := artifactLoad h a, path, outer := h }]).step
            = startLoad h (w'.writeArtifact a bytes) path us (some a) :=
        step_compiled_eq (hisolated j) hj (hsame ▸ hvalue) hcreate hback hwrite
      rw [run_succ, hstep]
      exact compiles_of_notMem (hquiet i)

/-- The source is loaded under a compiler that runs nothing. -/
theorem declares_startSource (h : Host) (w : World) (path : String) :
    (startSource (h.withCompiler .onRequest) w path).Declares :=
  ((loadSource_handed _ _ path).begun rfl).declares ⟨rfl, trivial⟩

theorem likewise_startSource (hcompiler : h.compiler = .always) (w : World) (path : String) :
    Likewise (startSource (h.withCompiler .onRequest) w path) (startSource h w path) := by
  have hidle : (idle (h.withCompiler .onRequest) w).withCompiler .always = idle h w :=
    withCompiler_of_compiler (m := idle h w) hcompiler
  have hrel := rel_loadSource (idle (h.withCompiler .onRequest) w) (fun _ => .always) id []
    (R := Likewise) Likewise.of_eq (fun x l path source _ => by
      rw [elsewhere_nil]
      exact likewise_compileAndLoad x l path source)
    (l := (idle h w).newLoad none) (Or.inl rfl) path
  rwa [elsewhere_nil, hidle] at hrel

end Machine

/-- Code that is run to compile it changes neither the table of units nor the files, and the host
that waits is the same all the while.  It goes on with the units if their code has returned, and
fails without a trace if it has raised an exception.  If neither that code nor the code of another
source that is loaded on the way raises one, the load comes to the same as under a compiler that
runs nothing. -/
theorem compilation_isolated {h : Host} (hcompiler : h.compiler = .always) (w : World)
    (path : String) :
    (∀ us unit scope args receiver n,
        (((idle (h.isolated.appendUnits us) w).enter unit scope args receiver).run n).Isolated us w)
      ∧ (∀ source a w' us, w.readText path = .ok source →
          w.createArtifact h.config = (.ok a, w') → Assembly.assemble source path = .ok us →
          CompiledApart h w w' path a us)
      ∧ ((∀ k, ((startSource h w path).run k).Compiles) →
          ((∃ n, ((startSource h w path).run n).isDone = true)
              ↔ ∃ n, ((startSource (h.withCompiler .onRequest) w path).run n).isDone = true)
            ∧ ∀ n n', ((startSource h w path).run n).isDone = true →
                ((startSource (h.withCompiler .onRequest) w path).run n').isDone = true →
                (startSource h w path).run n
                  = ((startSource (h.withCompiler .onRequest) w path).run n').withCompiler .always) := by
  refine ⟨fun us unit scope args receiver n => ?_, fun source a w' us => ?_, fun hcompiles => ?_⟩
  · exact ((isolated_idle h w us).enter unit scope args receiver).run n
  · exact compiledApart hcompiler
  · exact (likewise_startSource hcompiler w path).ends (declares_startSource h w path) hcompiles

/-! ### A source that defines a function and calls it -/

namespace Callee

def executingHost : Host := host.withCompiler .always

def worldApart : World where
  files := world.files.insert artifact.location (.file [])
  nextArtifact := 1

theorem run_startApart : ((startApart executingHost worldApart units).run 5).isDone = true
    ∧ ((startApart executingHost worldApart units).run 5).control = .returning .nil := by
  decide +kernel

theorem compiles_startSource (k : Nat) :
    ((startSource executingHost world "/callee.nl").run k).Compiles := by
  refine Machine.compiles_startSource (h := executingHost) rfl readText createArtifact
    assemble_units write?_units run_startApart.1 run_startApart.2 (fun j c hc => ?_) k
  have hdone : ((startLoad executingHost worldWithin "/callee.nl" units (some artifact)).run
      7).isDone = true := by decide +kernel
  have hquiet := run_of_isDone_run (P := fun m => ∀ a ∈ m.stack, a.isCompilation = false) hdone
    (by decide +kernel) j
  exact Bool.noConfusion (hquiet _ hc)

theorem run_startSource : ((startSource executingHost world "/callee.nl").run 13).isDone = true
    ∧ ((startSource executingHost world "/callee.nl").run 13).loaded? = some (.ok true) := by
  rw [startSource_eq_above (h := executingHost) rfl readText createArtifact assemble_units]
  decide +kernel

end Callee

section

open Callee

/-- The source comes to the same under both compilers, and running it to compile it takes six steps.
-/
theorem compilation_isolated_callee :
    ((startSource executingHost world "/callee.nl").run 13).loaded? = some (.ok true)
      ∧ (startSource executingHost world "/callee.nl").run 13
        = ((startSource (executingHost.withCompiler .onRequest) world "/callee.nl").run
            7).withCompiler .always := by
  have hdone : ((startSource (executingHost.withCompiler .onRequest) world "/callee.nl").run
      7).isDone = true := by
    show ((startSource host world "/callee.nl").run 7).isDone = true
    rw [startSource_eq]
    decide +kernel
  obtain ⟨-, -, hends⟩ := compilation_isolated (h := executingHost) rfl world "/callee.nl"
  exact ⟨run_startSource.2, (hends compiles_startSource).2 13 7 run_startSource.1 hdone⟩

end

/-! ### A source that loads another one -/

namespace Again

/-- Loads the file that a global variable names, if it names one. -/
def source : String := "gget r1, again\njf r1, done\ncall r0, load, r1, 1\ndone:\nret r1\n"

/-- Raises an exception unless the global variable is set. -/
def innerSource : String := "gget r1, again\njt r1, done\nraise r1\ndone:\nret r1\n"

def world : World where
  files := { entries := [(["a.nl"], .file (Bytes.ofText source)),
    (["b.nl"], .file (Bytes.ofText innerSource))] }

def host (c : Compiler) : Host :=
  (Callee.host.withCompiler c).setGlobal "again" (.str "/b.nl")

def worldApart : World where
  files := world.files.insert Callee.artifact.location (.file [])
  nextArtifact := 1

def units : List CodeUnit := [
  { filename := some "/a.nl", lines := [1, 2, 3, 5, 5], symbols := ["again", "load"]
    instructions := [{ opcode := .getGlobal, dest := 1 },
      { opcode := .jumpUnless, src1 := 1, imm := 3 },
      { opcode := .call, src1 := 1, mode := 1, imm := 1 }, { opcode := .ret, src1 := 1 },
      { opcode := .halt }] }]

theorem readText : world.readText "/a.nl" = .ok source := by
  have hname : Path.IsName "a.nl" := by constructor <;> decide
  have hkind : ModuleKind.ofPath "/a.nl" = .ok .source := by decide
  exact (World.finds_inRoot hname (by decide) hkind {}).readText

theorem createArtifact (c : Compiler) :
    world.createArtifact (host c).config = (.ok Callee.artifact, worldApart) :=
  Callee.createArtifact_of_vacant (by decide)

theorem assemble_source : Assembly.assemble source "/a.nl" = .ok units := by
  decide

def start (c : Compiler) : Machine :=
  (idle (host c) worldApart).compileAndLoad (artifactLoad (host c) Callee.artifact) "/a.nl" source

theorem startSource_eq (c : Compiler) : startSource (host c) world "/a.nl" = start c :=
  loadSource_eq (m := idle (host c) world) readText (createArtifact c) _

/-! The second source -/

/-- The frame that is about to load the second source. -/
def frame : Frame := { Frame.start 0 .topLevel [.str "/b.nl"] .main with position := 2 }

def innerArtifact : Artifact := { path := Location.path ["nlreq.1.1"], location := ["nlreq.1.1"] }

def AtLoad (m : Machine) : Prop :=
  m.control = .running frame ∧ m.builtinCall? frame = some (0, .load, [.str "/b.nl"])
    ∧ m.world.files.entryAt? ["b.nl"] = some (.file (Bytes.ofText innerSource))
    ∧ Callee.HasRoom m

instance (m : Machine) : Decidable (AtLoad m) := inferInstanceAs (Decidable (_ ∧ _))

def loadInner (m : Machine) : Machine :=
  ({ m with world := { m.world with
      files := m.world.files.insert innerArtifact.location (.file [])
      nextArtifact := m.world.nextArtifact + 1 } }.push (.call frame 0)).compileAndLoad
    (artifactLoad m.host innerArtifact) "/b.nl" innerSource

theorem AtLoad.step {m : Machine} (h : AtLoad m) : m.step = loadInner m := by
  obtain ⟨hcontrol, hcall, hfile, hpath, hvacant⟩ := h
  have hname : Path.IsName "b.nl" := by constructor <;> decide
  have hkind : ModuleKind.ofPath "/b.nl" = .ok .source := by decide
  have hfinds := World.finds_inRoot hname hfile hkind m.host.searchPath
  have hcreate : m.world.createArtifact m.host.config = _ :=
    World.createArtifact_inRoot (by constructor <;> decide) hpath (by decide) hvacant
  calc m.step = m.fetch frame := by rw [Machine.step, hcontrol]
    _ = (m.push (.call frame 0)).load "/b.nl" := fetch_of_builtinCall? hcall
    _ = (m.push (.call frame 0)).dispatch ((m.push (.call frame 0)).newLoad none) "/b.nl" :=
      load_of_resolve hfinds.resolve
    _ = (m.push (.call frame 0)).loadSource ((m.push (.call frame 0)).newLoad none) "/b.nl" := by
      rw [dispatch, hkind]
    _ = loadInner m := loadSource_eq (m := m.push (.call frame 0)) hfinds.readText hcreate _

/-- The load fails if the second source is run to compile it. -/
theorem run_always : ((startSource (host .always) world "/a.nl").run 13).isDone = true
    ∧ ((startSource (host .always) world "/a.nl").run 13).loaded? = some (.error (.raised {
        className := "LoadError", message := "can't load /b.nl:  (RuntimeError)"
        backtrace := ["/a.nl:3:in <main>"] })) := by
  have hload : AtLoad ((start .always).run 6) := by decide +kernel
  rw [startSource_eq, run_add _ 6 7, run_succ, hload.step]
  decide +kernel

/-- The load ends well if the second source is run in the host that loads it. -/
theorem run_onRequest : ((startSource (host .onRequest) world "/a.nl").run 10).isDone = true
    ∧ ((startSource (host .onRequest) world "/a.nl").run 10).loaded? = some (.ok true) := by
  have hload : AtLoad ((start .onRequest).run 2) := by decide +kernel
  rw [startSource_eq, run_add _ 2 8, run_succ, hload.step]
  decide +kernel

end Again

open Again

/-- That the code of the source itself returns is not enough. -/
theorem not_compilation_isolated_again :
    ¬ ∀ (h : Host) (w w' : World) (path source : String) (a : Artifact) (us : List CodeUnit)
        (k : Nat) (value : Value), h.compiler = .always → w.readText path = .ok source →
        w.createArtifact h.config = (.ok a, w') → Assembly.assemble source path = .ok us →
        ((startApart h w' us).run k).isDone = true →
        ((startApart h w' us).run k).control = .returning value →
        ∀ n n', ((startSource h w path).run n).isDone = true →
          ((startSource (h.withCompiler .onRequest) w path).run n').isDone = true →
          ((startSource h w path).run n).loaded?
            = ((startSource (h.withCompiler .onRequest) w path).run n').loaded? := by
  intro hall
  have hapart : ((startApart (host .always) worldApart units).run 3).isDone = true
      ∧ ((startApart (host .always) worldApart units).run 3).control = .returning .nil := by
    decide +kernel
  have hsame := hall (host .always) world worldApart "/a.nl" source Callee.artifact units 3 .nil rfl
    readText (createArtifact .always) assemble_source hapart.1 hapart.2 13 10 run_always.1
    run_onRequest.1
  exact absurd (run_always.2.symm.trans (hsame.trans run_onRequest.2)) nofun

end ModuleHost
