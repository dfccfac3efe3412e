import ModuleHost.Proofs.Machine.Attribution
import ModuleHost.Proofs.Session.Refinement

/-!
# A compiled module is loaded like its source

A source and the bytecode that it was compiled to, under whatever name, stand in two files.  Loading
the one and loading the other put the same units into the table, attributed to the one path or to
the other, and run them; the source only takes a temporary file for it.  So the two loads end
together, and come to the same (`load_bytecode_like_source`).
-/

namespace ModuleHost

/-- The name stands for the file at the path, which is a module of this kind with these contents. -/
structure World.Finds (w : World) (searchPath : SearchPath) (name path : String) (kind : ModuleKind)
    (contents : List UInt8) : Prop where
  resolve : w.resolve searchPath name = .ok path
  kind : ModuleKind.ofPath path = .ok kind
  opens : w.files.openEntry w.cwd path = .ok (.file contents)

theorem World.Finds.readText {w : World} {searchPath : SearchPath} {name path source : String}
    {kind : ModuleKind} (h : w.Finds searchPath name path kind (Bytes.ofText source)) :
    w.readText path = .ok source :=
  World.readText_eq_ok_iff.2 ⟨_, h.opens, Bytes.toText?_ofText source⟩

/-- The compiler of the host comes to the end of the units: either it does not run them, like
`Compiler.onRequest`, or they return when they run in a host of their own. -/
def Host.Compiles (h : Host) (w : World) (us : List CodeUnit) : Prop :=
  h.compiler.executes .declare = true →
    ∃ n value, let m := ((Machine.idle (h.isolated.appendUnits us) w).enterTopLevel 0).run n
      m.isDone = true ∧ m.control = .returning value

/-- Failures by exceptions that differ in nothing but the entries of their backtraces. -/
def LoadError.Raised (entries : String → String → Prop) (e e' : LoadError) : Prop :=
  ∃ x x', e = .raised x ∧ e' = .raised x' ∧ x.Alike entries x'

/-- Two loads of the units `us`, from the file `path` and from the file `path'`, have come to the
same: to the same outcome, and, unless a frame names a register which does not exist, to the same
host but for the file to which these units are attributed, while the files are those of before. -/
structure Machine.LoadedAlike (h : Host) (w : World) (path path' : String) (us : List CodeUnit)
    (m m' : Machine) : Prop where
  result : Option.Rel (SameResult (LoadError.Raised (SameButFile path path'))) m.loaded? m'.loaded?
  host : m.loaded?.isSome = true →
    m.host.SameBehind (h.units ++ CodeUnit.placed path us) (h.units ++ CodeUnit.placed path' us)
      m'.host
  files : m.loaded?.isSome = true → m.world.files = w.files ∧ m'.world.files = w.files

open Machine

section

variable {h : Host} {w world : World} {path path' name name' source filename : String}
  {us : List CodeUnit} {bytes : List UInt8} {a : Artifact}

/-! ### The two loads -/

namespace Machine

theorem startLoad_congr {vs : List CodeUnit} {artifact? : Option Artifact}
    (hplaced : CodeUnit.placed path us = CodeUnit.placed path vs) :
    startLoad h w path us artifact? = startLoad h w path vs artifact? := by
  rw [startLoad, startLoad, startUnits, startUnits, hplaced]

theorem load_bytecode_eq (hfinds : w.Finds h.searchPath name path .compiled bytes)
    (hread : Bytecode.read bytes = .ok us) :
    (idle h w).load name = startLoad h w path us none := by
  have hstream : Bytecode.readStream (.ok bytes) = .ok us := hread
  rw [load_of_resolve (m := idle h w) hfinds.resolve, dispatch, hfinds.kind]
  dsimp only
  rw [loadBytecode_of_openEntry (m := idle h w) hfinds.opens, streamOf,
    loadStream_of_mark _ _ hstream rfl, startLoad, startUnits, ← enter_above]
  rfl

theorem load_source_eq (hfinds : w.Finds h.searchPath name path .source bytes) :
    (idle h w).load name = startSource h w path := by
  rw [load_of_resolve (m := idle h w) hfinds.resolve, dispatch, hfinds.kind]
  rfl

/-- Units that have been compiled run as soon as they are handed on. -/
theorem loadCompiledUnits_eq_startLoad (hcreate : w.createArtifact h.config = (.ok a, world))
    (hread : Bytecode.read bytes = .ok us) (hw : Bytecode.write? us = some bytes) (path : String) :
    (idle h world).loadCompiledUnits (artifactLoad h a) path us
      = startLoad h (world.writeArtifact a bytes) path us (some a) := by
  have hstream : Bytecode.readStream (.ok bytes) = .ok us := hread
  obtain ⟨a', ha, hkeeps⟩ := World.keeps_of_createArtifact hcreate
  obtain rfl := Option.some.inj ha
  rw [loadCompiledUnits_of_keeps (m := idle h world) rfl hkeeps hw,
    loadStream_of_mark _ _ hstream rfl, startLoad, startUnits, ← enter_above]
  rfl

/-- Units that have been compiled are loaded as soon as they are at the end of their run. -/
theorem step_compiled_eq {z : Machine} (hz : z.Isolated us world) {value : Value}
    (hdone : z.isDone = true) (hvalue : z.control = .returning value)
    (hcreate : w.createArtifact h.config = (.ok a, world))
    (hread : Bytecode.read bytes = .ok us) (hw : Bytecode.write? us = some bytes) :
    (z.above [.compilation
        { load := { (idle h w).newLoad none with artifact := some a }, path, outer := h }]).step
      = startLoad h (world.writeArtifact a bytes) path us (some a) :=
  (step_compiled (m := idle h world) hz hdone hvalue _ path).trans
    (loadCompiledUnits_eq_startLoad hcreate hread hw path)

/-- The same code in a host of its own comes to the same end in every world. -/
theorem returns_in_world (hi : (idle h w).Isolated us w) {n : Nat} {value : Value}
    (hdone : (((idle h w).enterTopLevel 0).run n).isDone = true)
    (hvalue : (((idle h w).enterTopLevel 0).run n).control = .returning value) (world : World) :
    (((idle h world).enterTopLevel 0).run n).isDone = true
      ∧ (((idle h world).enterTopLevel 0).run n).control = .returning value := by
  have hidle : (idle h w).Alike .inWorlds (idle h world) :=
    ⟨.of_units rfl rfl h h.units, .returning .nil, .nil, trivial, False.elim⟩
  have halike := Abreast.run_isolated (hidle.enter ⟨0, rfl, rfl⟩ .topLevel [] .main)
    (hi.enter 0 .topLevel [] .main) rfl n
  refine ⟨halike.isDone.trans hdone, ?_⟩
  have hcontrol : Control.Alike .inWorlds (((idle h w).enterTopLevel 0).run n).control
    (((idle h world).enterTopLevel 0).run n).control := halike.control
  rw [hvalue] at hcontrol
  generalize (((idle h world).enterTopLevel 0).run n).control = control' at hcontrol
  cases hcontrol
  rfl

/-- A source comes to the point where its units run. -/
theorem startSource_reaches (hread : w.readText path = .ok source)
    (hcreate : w.createArtifact h.config = (.ok a, world))
    (hus : Assembly.assemble source path = .ok us) (hw : Bytecode.write? us = some bytes)
    (hcompiles : h.Compiles w us) :
    ∃ k, (startSource h w path).run k
      = startLoad h (world.writeArtifact a bytes) path us (some a) := by
  cases hcompiler : h.compiler with
  | onRequest => exact ⟨0, startSource_eq_startLoad hcompiler hread hcreate hus hw⟩
  | always =>
    have hback := read_of_assemble hus (World.ne_empty_of_readText hread) hw
    obtain ⟨n, value, hdone, hvalue⟩ := hcompiles (by rw [hcompiler]; rfl)
    obtain ⟨hdone, hvalue⟩ := returns_in_world (isolated_idle h w us) hdone hvalue world
    have hi : Isolated us world ((startApart h world us).run n) :=
      ((isolated_idle h world us).enter 0 .topLevel [] .main).run n
    obtain ⟨k, habove⟩ := exists_run_above_eq (m := startApart h world us) hdone
      [.compilation { load := artifactLoad h a, path, outer := h }]
    refine ⟨k + 1, ?_⟩
    rw [startSource_eq_above hcompiler hread hcreate hus, run_succ', habove]
    exact step_compiled_eq hi hdone hvalue hcreate hback hw

/-! ### The end of a load -/

def LoadEnded (m : Machine) : Prop :=
  m.control = .stuck
    ∨ m.stack = [] ∧ (m.control = .returning (.bool true) ∨ ∃ e, m.control = .failing (.raised e))

theorem loadEnded_run {y : Machine} {l : Load} {n : Nat}
    (hdone : ((y.above [.load l]).run n).isDone = true) : ((y.above [.load l]).run n).LoadEnded := by
  by_cases hstack : ((y.above [.load l]).run n).stack = []
  · refine Or.inr ⟨hstack, ?_⟩
    obtain ⟨k, j, hk, ⟨value, hrun⟩ | ⟨e, hrun⟩⟩ := exists_of_run_above hstack
    · rw [hrun, returnTo, run_finishLoad hk, finishLoad_eq]
      exact Or.inl rfl
    · rw [hrun, raiseTo, run_failLoad hk, failLoad_eq]
      exact Or.inr ⟨e, rfl⟩
  · unfold isDone at hdone
    split at hdone
    · cases hdone
    · exact Or.inl ‹_›
    · exact absurd (List.isEmpty_iff.1 hdone) hstack

end Machine

/-! ### Side by side -/

/-- Hosts into which the same units have been loaded from two files, while the second one is a
temporary file behind. -/
def Likeness.loaded (h : Host) (w : World) (path path' : String) (us : List CodeUnit) :
    Likeness where
  units := h.units ++ CodeUnit.placed path us
  units' := h.units ++ CodeUnit.placed path' us
  entries := SameButFile path path'
  counters := World.Lags h.config w
  sameWorld := False
  first_le := Nat.zero_le _
  second_le := Nat.zero_le _
  alike := List.rel_append (List.forall₂_same.2 fun _ _ => ⟨rfl, rfl, rfl, fun _ _ => Or.inl rfl⟩)
    (CodeUnit.alike_placed us path path')
  entries_refl _ := Or.inl rfl
  counters_refl := False.elim

open Likeness (loaded)

namespace Machine

theorem alike_startLoad (hcreate : w.createArtifact h.config = (.ok a, world)) (bytes : List UInt8)
    (path path' : String) (us : List CodeUnit) :
    (startLoad h (world.writeArtifact a bytes) path us (some a)).Alike (loaded h w path path' us)
      (startLoad h w path' us none) := by
  have hhost := Host.Alike.of_units (L := loaded h w path path' us) rfl rfl h []
  rw [List.append_nil, List.append_nil] at hhost
  have hidle : Machine.Alike (loaded h w path path' us)
      ((idle (h.appendUnits (CodeUnit.placed path us)) (world.writeArtifact a bytes)).above
        [.load { (idle h w).newLoad none with artifact := some a }])
      ((idle (h.appendUnits (CodeUnit.placed path' us)) w).above [.load ((idle h w).newLoad none)]) :=
    ⟨hhost, .returning .nil,
      .cons (.load { (idle h w).newLoad none with artifact := some a } False.elim) .nil,
      ⟨a, world, hcreate, rfl⟩, False.elim⟩
  rw [startLoad, startLoad, startUnits, startUnits, ← enter_above, ← enter_above]
  exact hidle.enter ⟨h.units.length, (Nat.zero_add _).symm, (Nat.zero_add _).symm⟩ .topLevel [] .main

/-- Loads that have ended alike have ended with the same result. -/
theorem LoadEnded.sameResult {L : Likeness} {m m' : Machine} (hend : m.LoadEnded)
    (hend' : m'.LoadEnded) (hcontrol : m.control.Alike L m'.control) :
    Option.Rel (SameResult (LoadError.Raised L.entries)) m.loaded? m'.loaded? := by
  unfold loaded?
  rcases hend with hc | ⟨-, hc | ⟨e, hc⟩⟩
  · rw [hc] at hcontrol ⊢
    generalize m'.control = control' at hcontrol
    cases hcontrol
    exact .none
  · rw [hc] at hcontrol ⊢
    generalize m'.control = control' at hcontrol
    cases hcontrol
    exact .some (.ok _)
  · rw [hc] at hcontrol ⊢
    rcases hend' with hc' | ⟨-, hc' | ⟨e', hc'⟩⟩
    · rw [hc'] at hcontrol
      cases hcontrol
    · rw [hc'] at hcontrol
      cases hcontrol
    · rw [hc'] at hcontrol ⊢
      cases hcontrol with
      | failing he => exact .some (.error ⟨e, e', rfl, rfl, he⟩)

/-- Loads that run abreast come to the same. -/
theorem Abreast.loadedAlike {m m' : Machine} (habreast : m.Abreast (loaded h w path path' us) m')
    (hdone : m.isDone = true) (hcarries : m.Carries h.config w) (hcarries' : m'.Carries h.config w)
    (hend : m.LoadEnded) (hend' : m'.LoadEnded) : m.LoadedAlike h w path path' us m' := by
  rcases habreast.alike_or_stuck hdone with halike | ⟨hstuck, hstuck'⟩
  · have hstacks : m.loaded?.isSome = true → m.stack = [] ∧ m'.stack = [] := by
      intro hresult
      have hstack : m.stack = [] := by
        rcases hend with hstuck | ⟨hstack, -⟩
        · rw [loaded?, hstuck] at hresult
          cases hresult
        · exact hstack
      have hrel := halike.stack
      rw [hstack] at hrel
      exact ⟨hstack, List.forall₂_nil_left_iff.1 hrel⟩
    refine ⟨hend.sameResult hend' halike.control,
      fun _ => halike.host.sameBehind rfl rfl, fun hresult => ?_⟩
    obtain ⟨hstack, hstack'⟩ := hstacks hresult
    exact ⟨hcarries.files_eq hstack, hcarries'.files_eq hstack'⟩
  · have hnone : m.loaded? = none := by rw [loaded?, hstuck]
    have hcontrol : m.control.Alike (loaded h w path path' us) m'.control := by
      rw [hstuck, hstuck']
      exact .stuck
    refine ⟨hend.sameResult hend' hcontrol, fun hresult => ?_, fun hresult => ?_⟩
    · rw [hnone] at hresult
      cases hresult
    · rw [hnone] at hresult
      cases hresult

end Machine

/-! ### The same units from both files -/

/-- What is put into the table depends on the units only for their code. -/
theorem CodeUnit.placed_congr {us vs : List CodeUnit} {path : String}
    (h : us.map (CodeUnit.named path) = vs.map (CodeUnit.named path)) :
    CodeUnit.placed path us = CodeUnit.placed path vs :=
  congrArg (List.modifyHead CodeUnit.finalize) h

/-- Under a path that can be opened the units can be written as well as under any other name. -/
theorem isSome_write?_named (hwrite : Bytecode.write? us = some bytes)
    (hpath : path.utf8ByteSize < FileTree.pathByteLimit) :
    (Bytecode.write? (us.map (CodeUnit.named path))).isSome = true := by
  have hsome : (Bytecode.write? us).isSome = true := by
    rw [hwrite]
    rfl
  obtain ⟨hlength, hunits⟩ := Bytecode.isSome_write?_iff.1 hsome
  refine Bytecode.isSome_write?_iff.2 ⟨by rwa [List.length_map], fun v hv => ?_⟩
  obtain ⟨u, hu, rfl⟩ := List.mem_map.1 hv
  obtain ⟨-, hinstructions, hsymbols, htexts, hchildren⟩ := hunits u hu
  refine ⟨?_, hinstructions, hsymbols, htexts, hchildren⟩
  have hshort : path.utf8ByteSize < 4096 := hpath
  show path.utf8ByteSize ≤ 0x1000000
  omega

variable (hassemble : Assembly.assemble source filename = .ok us)

include hassemble

/-- The name under which a source has been assembled does not matter. -/
theorem assemble_path (path : String) :
    Assembly.assemble source path = .ok (us.map (CodeUnit.named path)) := by
  rw [Assembly.assemble_named source filename path, hassemble]
  rfl

/-- Nothing but the name may be lost in a stream. -/
theorem placed_normal (path : String) :
    CodeUnit.placed path (us.map CodeUnit.normal) = CodeUnit.placed path us := by
  refine CodeUnit.placed_congr ?_
  rw [List.map_map]
  refine List.map_congr_left fun u hu => ?_
  have hnormal : (u.named "-").normal = u.named "-" :=
    normal_of_assemble (assemble_path hassemble "-") (by decide) _ (List.mem_map_of_mem hu)
  show (u.named "-").normal.named path = (u.named "-").named path
  rw [hnormal]

/-- The source runs the units in a world with the temporary file. -/
theorem load_source_reaches (hwrite : Bytecode.write? us = some bytes)
    (hsource : w.Finds h.searchPath name path .source (Bytes.ofText source))
    (hcompiles : h.Compiles w (us.map (CodeUnit.named path)))
    (hcreate : w.createArtifact h.config = (.ok a, world)) :
    ∃ bytes k, ((idle h w).load name).run k
      = startLoad h (world.writeArtifact a bytes) path us (some a) := by
  obtain ⟨bytes', hwrite'⟩ := Option.isSome_iff_exists.1
    (isSome_write?_named hwrite (FileTree.utf8ByteSize_lt_of_openEntry hsource.opens))
  obtain ⟨k, hk⟩ :=
    startSource_reaches hsource.readText hcreate (assemble_path hassemble path) hwrite' hcompiles
  have hplaced : CodeUnit.placed path (us.map (CodeUnit.named path)) = CodeUnit.placed path us := by
    refine CodeUnit.placed_congr ?_
    rw [List.map_map]
    rfl
  exact ⟨bytes', k, by rw [load_source_eq hsource, hk, startLoad_congr hplaced]⟩

/-- The bytecode runs the units at once. -/
theorem load_bytecode_starts (hwrite : Bytecode.write? us = some bytes)
    (hbytecode : w.Finds h.searchPath name path .compiled bytes) :
    (idle h w).load name = startLoad h w path us none := by
  rw [load_bytecode_eq hbytecode (read_normal_of_assemble hassemble hwrite),
    startLoad_congr (placed_normal hassemble path)]

/-- The source comes to the point from which the two loads run abreast. -/
theorem exists_abreast_loads (hwrite : Bytecode.write? us = some bytes)
    (hsource : w.Finds h.searchPath name path .source (Bytes.ofText source))
    (hbytecode : w.Finds h.searchPath name' path' .compiled bytes)
    (hcompiles : h.Compiles w (us.map (CodeUnit.named path)))
    (hcreate : (idle h w).CanCreate)
    (hcan : ∀ k, (((idle h w).load name).run k).CanCreate)
    (hnot : ∀ k, ¬ (((idle h w).load name).run k).ResolvesArtifact)
    (hnot' : ∀ k, ¬ (((idle h w).load name').run k).ResolvesArtifact) :
    ∃ k l l' y y', ((idle h w).load name).run k = Machine.above y [.load l]
      ∧ (idle h w).load name' = Machine.above y' [.load l']
      ∧ ∀ n, ((y.above [.load l]).run n).Abreast (loaded h w path path' us)
        ((y'.above [.load l']).run n) := by
  obtain ⟨a, world, hmade⟩ := hcreate
  have hc : w.createArtifact h.config = (.ok a, world) := hmade
  obtain ⟨bytes', k, hstart⟩ := load_source_reaches hassemble hwrite hsource hcompiles hc
  have hstart' := load_bytecode_starts hassemble hwrite hbytecode
  refine ⟨k, _, _, _, _, hstart, hstart', fun n => ?_⟩
  -- nothing waits below the load of the source
  have hnil : ∀ m : Machine, m.above [] = m := fun m => by rw [above, List.append_nil]
  have hcarries : ((startLoad h (world.writeArtifact a bytes') path us (some a)).above []).Carries
      h.config w := by
    rw [hnil, ← hstart]
    exact ((carries_idle h w).load name).run k
  have hcarries' : (startLoad h w path' us none).Carries h.config w := by
    rw [← hstart']
    exact (carries_idle h w).load name'
  refine abreast_run rfl id (.alike (alike_startLoad hc bytes' path path' us)) hcarries hcarries'
    (fun _ _ _ _ _ => rfl) (fun j => ?_) (fun j => ?_) (fun j => ?_) n
  · rw [hnil, ← hstart, ← run_add]
    exact hcan _
  · rw [hnil, ← hstart, ← run_add]
    exact hnot _
  · rw [← hstart']
    exact hnot' _

/-- A module that has been compiled behaves like its source, under whatever name it was compiled:
both loads end or neither does, and they come to the same but for the file that is named in the new
units and in their entries of a backtrace.  This is so because code runs in the same way whatever
the file and the lines to which it is attributed. -/
theorem load_bytecode_like_source (hwrite : Bytecode.write? us = some bytes)
    (hsource : w.Finds h.searchPath name path .source (Bytes.ofText source))
    (hbytecode : w.Finds h.searchPath name' path' .compiled bytes)
    (hcompiles : h.Compiles w (us.map (CodeUnit.named path)))
    (hcreate : (idle h w).CanCreate)
    (hcan : ∀ k, (((idle h w).load name).run k).CanCreate)
    (hnot : ∀ k, ¬ (((idle h w).load name).run k).ResolvesArtifact)
    (hnot' : ∀ k, ¬ (((idle h w).load name').run k).ResolvesArtifact) :
    ((∃ n, (((idle h w).load name).run n).isDone = true)
        ↔ ∃ n, (((idle h w).load name').run n).isDone = true)
      ∧ (∀ n n', (((idle h w).load name).run n).isDone = true →
          (((idle h w).load name').run n').isDone = true →
          (((idle h w).load name).run n).LoadedAlike h w path path' us
            (((idle h w).load name').run n'))
      ∧ ∀ vs vs', List.Forall₂ CodeUnit.SameCode vs vs' → ∀ unit scope args receiver n,
          Machine.InStep vs vs'
            (((idle { h with units := vs } w).enter unit scope args receiver).run n)
            (((idle { h with units := vs' } w).enter unit scope args receiver).run n) := by
  obtain ⟨k, l, l', y, y', hk, hstart', habreast⟩ := exists_abreast_loads hassemble hwrite hsource
    hbytecode hcompiles hcreate hcan hnot hnot'
  refine ⟨⟨fun ⟨n, hn⟩ => ⟨n, ?_⟩, fun ⟨n, hn⟩ => ⟨k + n, ?_⟩⟩, fun n n' hn hn' => ?_,
    fun vs vs' hcode => run_sameCode h w hcode⟩
  · rw [hstart', (habreast n).isDone, ← hk, ← run_add, Nat.add_comm, run_add, run_of_isDone hn]
    exact hn
  · rw [run_add, hk, ← (habreast n).isDone, ← hstart']
    exact hn
  · -- both have ended after `n + n'` steps abreast
    have hlast : ((idle h w).load name).run n = (y.above [.load l]).run (n + n') := by
      rw [← hk, ← run_add, ← Nat.add_assoc, Nat.add_comm k n, Nat.add_assoc, run_add,
        run_of_isDone hn]
    have hlast' : ((idle h w).load name').run n' = (y'.above [.load l']).run (n + n') := by
      rw [← hstart', Nat.add_comm, run_add, run_of_isDone hn']
    have hcarries := ((carries_idle h w).load name).run n
    have hcarries' := ((carries_idle h w).load name').run n'
    rw [hlast] at hn hcarries ⊢
    rw [hlast'] at hn' hcarries' ⊢
    exact (habreast (n + n')).loadedAlike hn hcarries hcarries' (loadEnded_run hn) (loadEnded_run hn')

end

/-- The path of a file in the root stands for that file. -/
theorem World.finds_inRoot {w : World} {name : String} {kind : ModuleKind} {contents : List UInt8}
    (hname : Path.IsName name) (hfile : w.files.entryAt? [name] = some (.file contents))
    (hkind : ModuleKind.ofPath (Location.path [name]) = .ok kind) (searchPath : SearchPath) :
    w.Finds searchPath (Location.path [name]) (Location.path [name]) kind contents := by
  have hopen := FileTree.openEntry_path (FileTree.directoryAt_root w.files) hname hfile
    (by simp) (Path.utf8ByteSize_path_singleton hname) w.cwd
  exact ⟨World.resolve_of_openEntry (Path.isAbsolute_path _) hopen _, hkind, hopen⟩

/-! ### A source that raises a string, and its bytecode -/

namespace Raising

def source : String := "str r1, \"no\"\nraise r1\n"

def units (filename : String) : List CodeUnit :=
  [{ filename := some filename, lines := [1, 2, 2], symbols := ["no"]
     instructions := [{ opcode := .loadStr, dest := 1 }, { opcode := .raise, src1 := 1 },
       { opcode := .halt }] }]

def bytes : List UInt8 := (Bytecode.write? (units "no.nl")).getD []

def world : World where
  files := { entries := [(["no.nl"], .file (Bytes.ofText source)), (["no.nlb"], .file bytes)] }

theorem finds_source : world.Finds Callee.host.searchPath (Location.path ["no.nl"])
    (Location.path ["no.nl"]) .source (Bytes.ofText source) := by
  refine World.finds_inRoot ?_ (by decide) (by decide) _
  constructor <;> decide

theorem finds_bytecode : world.Finds Callee.host.searchPath (Location.path ["no.nlb"])
    (Location.path ["no.nlb"]) .compiled bytes := by
  refine World.finds_inRoot ?_ (by decide) (by decide) _
  constructor <;> decide

theorem createArtifact : world.createArtifact Callee.host.config
    = (.ok Callee.artifact, { world with
        files := world.files.insert Callee.artifact.location (.file [])
        nextArtifact := 1 }) :=
  Callee.createArtifact_of_vacant (by decide)

theorem write?_units : Bytecode.write? (units "no.nl") = some bytes := by decide

def sourceLoad : Machine := (idle Callee.host world).load (Location.path ["no.nl"])

def bytecodeLoad : Machine := (idle Callee.host world).load (Location.path ["no.nlb"])

/-- The source runs in the world with its temporary file. -/
theorem sourceLoad_eq : sourceLoad = startLoad Callee.host
    { files := (world.files.insert Callee.artifact.location (.file [])).replace
        Callee.artifact.location (.file ((Bytecode.write? (units "/no.nl")).getD []))
      nextArtifact := 1 } "/no.nl" (units "/no.nl") (some Callee.artifact) := by
  rw [sourceLoad, load_source_eq finds_source]
  exact startSource_eq_startLoad rfl finds_source.readText createArtifact (by decide) (by decide)

theorem bytecodeLoad_eq :
    bytecodeLoad = startLoad Callee.host world "/no.nlb" (units "no.nl") none :=
  load_bytecode_eq finds_bytecode (by decide)

theorem assemble_source : Assembly.assemble source "no.nl" = .ok (units "no.nl") := by
  decide

def error (path : String) : LoadError :=
  .raised { className := "RuntimeError", message := "no", backtrace := [path ++ ":2:in <main>"] }

theorem run_sourceLoad : (sourceLoad.run 3).loaded? = some (.error (error "/no.nl"))
    ∧ (sourceLoad.run 3).isDone = true := by
  rw [sourceLoad_eq]
  decide

theorem run_bytecodeLoad : (bytecodeLoad.run 3).loaded? = some (.error (error "/no.nlb"))
    ∧ (bytecodeLoad.run 3).isDone = true := by
  rw [bytecodeLoad_eq]
  decide

theorem not_resolvesArtifact_sourceLoad (k : Nat) : ¬ (sourceLoad.run k).ResolvesArtifact := by
  apply not_resolvesArtifact_of_callsBuiltin
  refine run_of_isDone_run (P := fun m => m.callsBuiltin = false) run_sourceLoad.2 ?_ k
  rw [sourceLoad_eq]
  decide

theorem not_resolvesArtifact_bytecodeLoad (k : Nat) : ¬ (bytecodeLoad.run k).ResolvesArtifact := by
  apply not_resolvesArtifact_of_callsBuiltin
  refine run_of_isDone_run (P := fun m => m.callsBuiltin = false) run_bytecodeLoad.2 ?_ k
  rw [bytecodeLoad_eq]
  decide

theorem canCreate_sourceLoad (k : Nat) : (sourceLoad.run k).CanCreate := by
  refine run_of_isDone_run (P := CanCreate) run_sourceLoad.2 (fun k hk => ?_) k
  have hroom : ∀ k ≤ 3, Callee.HasRoom (sourceLoad.run k) := by
    rw [sourceLoad_eq]
    decide
  exact (hroom k hk).canCreate

end Raising

open Raising

/-- The exception names the file from which the unit has been loaded. -/
theorem load_bytecode_like_source_raising :
    (sourceLoad.run 3).loaded? = some (.error (error "/no.nl"))
      ∧ (bytecodeLoad.run 3).loaded? = some (.error (error "/no.nlb"))
      ∧ (sourceLoad.run 3).LoadedAlike Callee.host world "/no.nl" "/no.nlb" (units "no.nl")
        (bytecodeLoad.run 3) := by
  obtain ⟨-, halike, -⟩ := load_bytecode_like_source assemble_source write?_units finds_source
    finds_bytecode nofun ⟨_, _, createArtifact⟩ canCreate_sourceLoad not_resolvesArtifact_sourceLoad
    not_resolvesArtifact_bytecodeLoad
  exact ⟨run_sourceLoad.1, run_bytecodeLoad.1, halike 3 3 run_sourceLoad.2 run_bytecodeLoad.2⟩

end ModuleHost
