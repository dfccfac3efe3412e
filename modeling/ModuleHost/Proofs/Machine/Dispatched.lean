import ModuleHost.Proofs.Loading.Artifact
import ModuleHost.Proofs.Machine.Executed

/-!
# What starting a load can do

A load that has been handed a file either fails at once, having changed nothing that code can see,
or it has put the units of the file into the table and enters the first of them, or it runs a
compiler in a host of its own.  `dispatch_cases` and `loadCompiledUnits_cases` say so; what holds of
every load is shown for these three and never by looking at the loaders again.
-/

namespace ModuleHost

/-- Units as a load puts them into the table: all attributed to one file, the first one made to hand
back control. -/
def CodeUnit.placed (attribution : String) (units : List CodeUnit) : List CodeUnit :=
  (units.map fun u => { u with filename := some attribution }).modifyHead CodeUnit.finalize

theorem Host.appendUnits_placed (h : Host) (attribution : String) (units : List CodeUnit) :
    ((h.appendUnits units).attributeFrom h.units.length (some attribution)).modifyUnit
        h.units.length CodeUnit.finalize
      = h.appendUnits (CodeUnit.placed attribution units) := by
  simp only [appendUnits, attributeFrom, modifyUnit, List.take_left, List.drop_left,
    List.modify_eq_take_drop, CodeUnit.placed]

def LoadError.isRaised : LoadError → Bool
  | raised _ => true
  | _ => false

/-- The failure of a load before anything of the file has been decoded. -/
inductive LoadError.IsEarly : LoadError → Prop
  | unknownKind (path : String) (reason : ModuleKind.Unknown) :
    IsEarly (.unknownKind path reason)
  | unreadable (path : String) (e : FileError) : IsEarly (.unreadable path (.file e))
  | native (path : String) (fault : NativeFault) : IsEarly (.native path fault)

theorem LoadError.IsEarly.isRaised {e : LoadError} (he : e.IsEarly) : e.isRaised = false := by
  cases he <;> rfl

/-- A file under its path stands for itself. -/
theorem World.resolve_of_openEntry {w : World} {path : String} {contents : List UInt8}
    (habsolute : Path.isAbsolute path = true)
    (hopen : w.files.openEntry w.cwd path = .ok (.file contents)) (searchPath : SearchPath) :
    w.resolve searchPath path = .ok path := by
  rw [resolve, if_pos habsolute, FileTree.isFile, hopen]
  rfl

theorem World.eq_notFound_of_resolve {w : World} {searchPath : SearchPath} {name : String}
    {err : LoadError} (h : w.resolve searchPath name = .error err) : err = .notFound name := by
  unfold resolve at h
  split at h
  · split at h
    · cases h
    · cases h
      rfl
  · split at h
    · cases h
    · cases h
      rfl

namespace Machine

/-- The machine and the load when a loader has looked for a place for its temporary file: it needed
none, found none, or made the file. -/
inductive Prepared (m : Machine) (l : Load) : Machine → Load → Prop
  | plain : Prepared m l m l
  | missed {e : FileError} {world : World}
      (h : m.world.createArtifact m.host.config = (.error e, world)) :
      Prepared m l { m with world } l
  | made {a : Artifact} {world : World}
      (h : m.world.createArtifact m.host.config = (.ok a, world)) :
      Prepared m l { m with world } { l with artifact := some a }

/-- What handing the file at `path` to its loader can come to: the load fails before anything of the
file is decoded, or the bytes in it are read, or the source in it is compiled. -/
inductive Handed (m : Machine) (l : Load) (path : String) : Machine → Prop
  | fails {m₁ : Machine} {l₁ : Load} {e : LoadError} (hp : Prepared m l m₁ l₁) (he : e.IsEarly) :
      Handed m l path (m₁.failLoad l₁ e)
  | streams {entry : Entry} (hkind : ModuleKind.ofPath path = .ok .compiled)
      (hopen : m.world.files.openEntry m.world.cwd path = .ok entry) :
      Handed m l path (m.loadStream l path path (streamOf entry))
  | compiles {source : String} {a : Artifact} {world : World}
      (hread : m.world.readText path = .ok source)
      (hc : m.world.createArtifact m.host.config = (.ok a, world)) :
      Handed m l path
        ({ m with world }.compileAndLoad { l with artifact := some a } path source)

inductive Streamed (m : Machine) (l : Load) : Machine → Prop
  | failed {pending : Option Exception} {e : LoadError}
      (h : e.isRaised = false → pending = m.host.pending) :
      Streamed m l ({ m with host := { m.host with pending } }.failLoad l e)
  | entered {world : World} {bytes : List UInt8} {units : List CodeUnit} {attribution : String}
      {arena : List Value} (hw : world.discard l.artifact = m.world.discard l.artifact)
      (hr : Bytecode.read bytes = .ok units)
      (ha : arena = (m.host.arena ++ units.flatMap fun u => u.symbols.map Value.str).take
        l.arenaMark) :
      Streamed m l (({ m with
        host := { m.host with arena }.appendUnits (CodeUnit.placed attribution units)
        world }.push (.load l)).enterTopLevel m.host.units.length)

inductive Dispatched (m : Machine) (l : Load) : Machine → Prop
  | failed {m₁ : Machine} {l₁ : Load} {e : LoadError} (hp : Prepared m l m₁ l₁)
      (he : e.isRaised = false) : Dispatched m l (m₁.failLoad l₁ e)
  | streamed {m₁ m₂ : Machine} {l₁ : Load} (hp : Prepared m l m₁ l₁) (hs : Streamed m₁ l₁ m₂) :
      Dispatched m l m₂
  | compiles {m₁ : Machine} {l₁ : Load} {path : String} {units : List CodeUnit}
      (hp : Prepared m l m₁ l₁) (hc : m.host.compiler.executes .declare = true)
      (hu : ∃ source, Assembly.assemble source path = .ok units) :
      Dispatched m l (({ m₁ with host := m.host.isolated.appendUnits units }.push
        (.compilation { load := l₁, path, outer := m.host })).enterTopLevel 0)

inductive Required (m : Machine) (name : String) : Machine → Prop
  | unresolved {e : LoadError} (hr : m.world.resolve m.host.searchPath name = .error e) :
      Required m name { m with control := .failing e }
  | known {path : String} (hr : m.world.resolve m.host.searchPath name = .ok path)
      (hk : path ∈ m.host.ledger.loaded.entries ∨ path ∈ m.host.ledger.loading.entries) :
      Required m name { m with control := .returning (.bool false) }
  | begun {m₁ m₂ : Machine} {path : String}
      (hr : m.world.resolve m.host.searchPath name = .ok path)
      (hf : m.host.ledger.state path = .fresh)
      (hm : m₁ = { m with host := { m.host with ledger := m.host.ledger.markLoading path } })
      (hd : Dispatched m₁ (m₁.newLoad (some path)) m₂) : Required m name m₂

section

variable {m m₁ : Machine} {l l₁ : Load}

theorem Prepared.host (h : Prepared m l m₁ l₁) : m₁.host = m.host := by
  cases h <;> rfl

theorem Prepared.stack (h : Prepared m l m₁ l₁) : m₁.stack = m.stack := by
  cases h <;> rfl

theorem Prepared.key (h : Prepared m l m₁ l₁) : l₁.key = l.key := by
  cases h <;> rfl

theorem Prepared.arenaMark (h : Prepared m l m₁ l₁) : l₁.arenaMark = l.arenaMark := by
  cases h <;> rfl

end

variable (m : Machine) (l : Load)

/-- A stream of units is put into the table and the first of them entered. -/
theorem loadStream_of_ok {stream : Except Bytecode.StreamFault (List UInt8)}
    {units : List CodeUnit} (hr : Bytecode.readStream stream = .ok units)
    (path attribution : String) :
    m.loadStream l path attribution stream
      = ({ m with
          host := ((m.host.pushArena (units.flatMap fun (u : CodeUnit) =>
            u.symbols.map Value.str)).restoreArena l.arenaMark).appendUnits
              (CodeUnit.placed attribution units) }.push (.load l)).enterTopLevel
                m.host.units.length := by
  unfold loadStream Host.readUnits
  rw [hr]
  rw [← Host.appendUnits_placed]
  rfl

/-- The arena is as it was when the load began. -/
theorem loadStream_of_mark {stream : Except Bytecode.StreamFault (List UInt8)}
    {units : List CodeUnit} (hr : Bytecode.readStream stream = .ok units)
    (hmark : l.arenaMark = m.host.arena.length) (path attribution : String) :
    m.loadStream l path attribution stream
      = ({ m with host := m.host.appendUnits (CodeUnit.placed attribution units) }.push
          (.load l)).enterTopLevel m.host.units.length := by
  rw [loadStream_of_ok m l hr, hmark, Host.restoreArena, Host.pushArena, List.take_left]

/-- A stream that is refused fails the load: with the pending exception, if there is one. -/
theorem loadStream_of_error {stream : Except Bytecode.StreamFault (List UInt8)}
    {e : Bytecode.DecodeError} (hr : Bytecode.readStream stream = .error e)
    (path attribution : String) :
    m.loadStream l path attribution stream
      = { m with host := { m.host with pending := none } }.failLoad l
        (match (Host.pendingFor? e).or m.host.pending with
          | some exception => .raised exception
          | none => .unreadable path (.bytecode e)) := by
  unfold loadStream Host.readUnits
  rw [hr]
  dsimp only
  cases hp : (Host.pendingFor? e).or m.host.pending with
  | some exception =>
    simp only [Host.restoreArena, failLoad_eq, List.take_take, Nat.min_self]
  | none =>
    simp only [Host.restoreArena, failLoad_eq, List.take_take, Nat.min_self]

theorem loadStream_cases {world : World} (path attribution : String)
    (hw : world.discard l.artifact = m.world.discard l.artifact)
    (stream : Except Bytecode.StreamFault (List UInt8)) :
    Streamed m l ({ m with world }.loadStream l path attribution stream) := by
  cases hr : Bytecode.readStream stream with
  | ok units =>
    have hread : ∃ bytes, Bytecode.read bytes = .ok units := by
      cases stream with
      | ok bytes => exact ⟨bytes, hr⟩
      | error fault => cases hr
    obtain ⟨bytes, hbytes⟩ := hread
    rw [loadStream_of_ok _ _ hr]
    exact .entered hw hbytes rfl
  | error e =>
    have hpending : ∀ e' : LoadError, (e'.isRaised = false → none = m.host.pending) →
        Streamed m l ({ m with world, host := { m.host with pending := none } }.failLoad l e') := by
      intro e' he'
      have hfailed := @Streamed.failed m l none e' he'
      rw [failLoad_eq] at hfailed ⊢
      rw [← hw] at hfailed
      exact hfailed
    rw [loadStream_of_error _ _ hr]
    refine hpending _ fun hraised => ?_
    cases hp : (Host.pendingFor? e).or m.host.pending with
    | some exception =>
      rw [hp] at hraised
      cases hraised
    | none => exact (Option.or_eq_none_iff.1 hp).2.symm

/-- A machine that fails the load at once. -/
theorem Streamed.refused (e : LoadError) : Streamed m l (m.failLoad l e) :=
  @Streamed.failed m l m.host.pending e fun _ => rfl

theorem loadCompiledUnits_cases (path : String) (units : List CodeUnit) :
    Streamed m l (m.loadCompiledUnits l path units) := by
  unfold loadCompiledUnits
  cases ha : l.artifact with
  | none => exact .refused m l _
  | some a =>
    dsimp only
    cases Bytecode.write? units with
    | none => exact .refused m l _
    | some bytes =>
      refine loadStream_cases m l a.path path ?_ _
      rw [ha]
      exact World.removeArtifact_writeArtifact m.world a bytes

theorem compileAndLoad_cases {m₁ : Machine} {l₁ : Load} (hp : Prepared m l m₁ l₁)
    (hhost : m₁.host = m.host) (path source : String) :
    Dispatched m l (m₁.compileAndLoad l₁ path source) := by
  unfold compileAndLoad
  cases ha : Assembly.assemble source path with
  | error e => exact .failed hp rfl
  | ok units =>
    dsimp only
    rw [hhost]
    split
    · exact .compiles hp ‹_› ⟨source, ha⟩
    · exact .streamed hp (loadCompiledUnits_cases m₁ l₁ path units)

theorem loadBytecode_cases (path attribution : String) :
    Dispatched m l (m.loadBytecode l path attribution) := by
  unfold loadBytecode
  cases m.world.files.openEntry m.world.cwd path with
  | error e => exact .failed .plain rfl
  | ok entry => exact .streamed .plain (loadStream_cases m l path attribution rfl _)

theorem loadSource_handed (path : String) : Handed m l path (m.loadSource l path) := by
  unfold loadSource
  cases hread : m.world.readText path with
  | error e => exact .fails .plain (.unreadable _ _)
  | ok source =>
    dsimp only
    rcases hc : m.world.createArtifact m.host.config with ⟨result, world⟩
    cases result with
    | error e => exact .fails (.missed hc) (.unreadable _ _)
    | ok a => exact .compiles hread hc

theorem dispatch_handed (path : String) : Handed m l path (m.dispatch l path) := by
  unfold dispatch
  cases hkind : ModuleKind.ofPath path with
  | error reason => exact .fails .plain (.unknownKind _ _)
  | ok kind =>
    cases kind with
    | native => exact .fails .plain (.native _ _)
    | source => exact loadSource_handed m l path
    | compiled =>
      dsimp only [loadBytecode]
      cases hopen : m.world.files.openEntry m.world.cwd path with
      | error e => exact .fails .plain (.unreadable _ _)
      | ok entry => exact .streams hkind hopen

variable {m l} in
theorem Handed.dispatched {m' : Machine} {path : String} (h : Handed m l path m') :
    Dispatched m l m' := by
  cases h with
  | fails hp he => exact .failed hp he.isRaised
  | streams => exact .streamed .plain (loadStream_cases m l path path rfl _)
  | compiles hread hc => exact compileAndLoad_cases m l (.made hc) rfl path _

theorem loadSource_cases (path : String) : Dispatched m l (m.loadSource l path) :=
  (loadSource_handed m l path).dispatched

theorem dispatch_cases (path : String) : Dispatched m l (m.dispatch l path) :=
  (dispatch_handed m l path).dispatched

theorem require_cases (name : String) : Required m name (m.require name) := by
  generalize m.require name = m', called_require m name = hc
  cases hc with
  | refuses he => cases he
  | unresolved hb hr => exact .unresolved hr
  | known hr hk => exact .known hr hk
  | requires hr hf => exact .begun hr hf rfl (dispatch_cases _ _ _)

theorem load_of_resolve {m : Machine} {name path : String}
    (hr : m.world.resolve m.host.searchPath name = .ok path) :
    m.load name = m.dispatch (m.newLoad none) path := by
  rw [load, hr]

theorem loadBytecode_of_openEntry {m : Machine} {l : Load} {path attribution : String}
    {entry : Entry} (h : m.world.files.openEntry m.world.cwd path = .ok entry) :
    m.loadBytecode l path attribution = m.loadStream l path attribution (streamOf entry) := by
  rw [loadBytecode, h]

/-- Requiring a bytecode file when its path is not known yet. -/
theorem require_of_resolve {m : Machine} {name path : String} {contents : List UInt8}
    (hresolve : m.world.resolve m.host.searchPath name = .ok path)
    (hopen : m.world.files.openEntry m.world.cwd path = .ok (.file contents))
    (hkind : ModuleKind.ofPath path = .ok .compiled) (hf : m.host.ledger.state path = .fresh) :
    m.require name = (m.mapLedger (·.markLoading path)).loadStream (m.newLoad (some path)) path path
      (.ok contents) := by
  rw [require_of_fresh hresolve hf, dispatch, hkind]
  exact loadBytecode_of_openEntry (m := m.mapLedger (·.markLoading path)) hopen

/-- Requiring a bytecode file by its path. -/
theorem require_bytecode {m : Machine} {path : String} {contents : List UInt8}
    (habsolute : Path.isAbsolute path = true)
    (hopen : m.world.files.openEntry m.world.cwd path = .ok (.file contents))
    (hkind : ModuleKind.ofPath path = .ok .compiled) (hf : m.host.ledger.state path = .fresh) :
    m.require path = (m.mapLedger (·.markLoading path)).loadStream (m.newLoad (some path)) path path
      (.ok contents) :=
  require_of_resolve (World.resolve_of_openEntry habsolute hopen _) hopen hkind hf

end Machine

end ModuleHost
