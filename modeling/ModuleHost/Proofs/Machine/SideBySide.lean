import ModuleHost.Proofs.Machine.Likeness

/-!
# Steps side by side

Where the worlds agree on the module that is loaded next, alike machines take alike steps: every
loader, every instruction and every result that is handed on comes to alike machines again
(`Machine.Abreast.step`).  Only a source that is compiled by running it leads away from alike
machines, and back to them when its code has come to an end.
-/

namespace ModuleHost

variable {L : Likeness}

/-! ### Loads -/

namespace Machine.Alike

variable {m m' : Machine} {f f' : Frame} {l : Load} {i j : Nat} {path : String}

theorem enter (h : m.Alike L m') (hi : L.Index i j) (scope : Scope) (args : List Value)
    (receiver : Value) :
    (m.enter i scope args receiver).Alike L (m'.enter j scope args receiver) := by
  unfold Machine.enter
  rw [h.host.read (·.depth) fun _ _ _ => rfl]
  split
  · exact ⟨h.host, .raising (.refl _), h.stack, h.world⟩
  · exact ⟨h.host.change (f := Host.enterFrame) fun _ _ _ => rfl,
      .running (.mk hi), h.stack, h.world⟩

theorem failLoad (h : m.Alike L m') {e e' : LoadError} (he : e.toException.Alike L.entries e'.toException)
    (l : Load) {artifact? : Option Artifact} (ha : L.sameWorld → artifact? = l.artifact) :
    (m.failLoad l e).Alike L (m'.failLoad { l with artifact := artifact? } e') := by
  rw [failLoad_eq, failLoad_eq]
  exact ⟨h.host.change (f := fun x => { x.restoreArena l.arenaMark with
      ledger := x.ledger.abandoned x.config.retryFailed l.key }) fun _ _ _ => rfl,
    .failing he, h.stack, h.world.discard ha⟩

theorem finishLoad (h : m.Alike L m') (l : Load) {artifact? : Option Artifact}
    (ha : L.sameWorld → artifact? = l.artifact) :
    (m.finishLoad l).Alike L (m'.finishLoad { l with artifact := artifact? }) := by
  rw [finishLoad_eq, finishLoad_eq]
  exact ⟨h.host.change (f := fun x => { x.restoreArena l.arenaMark with
      ledger := x.ledger.completed l.key }) fun _ _ _ => rfl,
    .returning _, h.stack, h.world.discard ha⟩

/-- Units that are read from both streams are put into both tables and the first of them is
entered. -/
theorem enterStream (h : m.Alike L m') (l : Load) {artifact? : Option Artifact}
    (ha : L.sameWorld → artifact? = l.artifact) (path path' attribution : String)
    {stream : Except Bytecode.StreamFault (List UInt8)} {us : List CodeUnit}
    (hr : Bytecode.readStream stream = .ok us) :
    (m.loadStream l path attribution stream).Alike L
      (m'.loadStream { l with artifact := artifact? } path' attribution stream) := by
  rw [loadStream_of_ok m l hr, loadStream_of_ok m' _ hr]
  have hhost := h.host.change (f := fun x => (x.pushArena (us.flatMap fun (u : CodeUnit) =>
    u.symbols.map Value.str)).restoreArena l.arenaMark) fun _ _ _ => rfl
  have hpushed : Machine.Alike L
      ({ m with host := Host.appendUnits _ (CodeUnit.placed attribution us) }.push (.load l))
      ({ m' with host := Host.appendUnits _ (CodeUnit.placed attribution us) }.push
        (.load { l with artifact := artifact? })) :=
    ⟨hhost.appendUnits _, h.control, .cons (.load l ha) h.stack, h.world⟩
  exact hpushed.enter h.host.next .topLevel [] .main

theorem loadStream (h : m.Alike L m') (l : Load) (path attribution : String)
    (stream : Except Bytecode.StreamFault (List UInt8)) :
    (m.loadStream l path attribution stream).Alike L
      (m'.loadStream l path attribution stream) := by
  cases hr : Bytecode.readStream stream with
  | ok us => exact h.enterStream l (fun _ => rfl) path path attribution hr
  | error e =>
    rw [loadStream_of_error m l hr, loadStream_of_error m' l hr,
      h.host.read (·.pending) fun _ _ _ => rfl]
    have hhost := h.host.change (f := fun x => { x with pending := none }) fun _ _ _ => rfl
    have hm : Machine.Alike L { m with host := _ } { m' with host := _ } :=
      ⟨hhost, h.control, h.stack, h.world⟩
    exact hm.failLoad (.refl _) l fun _ => rfl

/-- Compiled units are loaded through the temporary files. -/
theorem loadCompiledUnits (h : m.Alike L m') (l : Load) {artifact? : Option Artifact}
    (ha : L.sameWorld → artifact? = l.artifact) (hw : m.world.Keeps l.artifact)
    (hw' : m'.world.Keeps artifact?) (path : String) {us : List CodeUnit}
    (hus : Bytecode.Lossless us) :
    (m.loadCompiledUnits l path us).Alike L
      (m'.loadCompiledUnits { l with artifact := artifact? } path us) := by
  obtain ⟨a, hartifact, hkeeps⟩ := hw
  obtain ⟨a', rfl, hkeeps'⟩ := hw'
  cases hbytes : Bytecode.write? us with
  | none =>
    have hlarge : ∀ (x : Machine) (k : Load),
        x.loadCompiledUnits k path us = x.failLoad k (.unreadable path .tooLarge) := by
      intro x k
      unfold Machine.loadCompiledUnits
      rw [hbytes]
      cases k.artifact <;> rfl
    rw [hlarge, hlarge]
    exact h.failLoad (.refl _) l ha
  | some bytes =>
    have hsame : L.sameWorld → a' = a := fun hs => Option.some.inj ((ha hs).trans hartifact)
    have hm : Machine.Alike L { m with world := m.world.writeArtifact a bytes }
        { m' with world := m'.world.writeArtifact a' bytes } :=
      ⟨h.host, h.control, h.stack, h.world.writeArtifact hsame bytes⟩
    rw [loadCompiledUnits_of_keeps hartifact hkeeps hbytes,
      loadCompiledUnits_of_keeps (l := { l with artifact := some a' }) rfl hkeeps' hbytes]
    exact hm.enterStream l ha a.path a'.path path (hus bytes hbytes)

theorem newLoad (h : m.Alike L m') (key : Option String) : m'.newLoad key = m.newLoad key := by
  rw [Machine.newLoad, Machine.newLoad, h.host.read (·.arena) fun _ _ _ => rfl]

/-- A load without a temporary file fails in both. -/
theorem refuse (h : m.Alike L m') (key : Option String) {e e' : LoadError}
    (he : e.toException = e'.toException) :
    (m.failLoad (m.newLoad key) e).Alike L (m'.failLoad (m'.newLoad key) e') := by
  have hrefl : e.toException.Alike L.entries e'.toException := he ▸ .refl _
  rw [h.newLoad]
  exact h.failLoad hrefl (m.newLoad key) fun _ => rfl

theorem loadBytecode (h : m.Alike L m') (key : Option String)
    (hw : m.world.AgreesAt L m.host.config path m'.world) :
    (m.loadBytecode (m.newLoad key) path path).Alike L
      (m'.loadBytecode (m'.newLoad key) path path) := by
  unfold Machine.loadBytecode
  rcases ok_or_error_of_ok_iff hw.opens with ⟨entry, ho, ho'⟩ | ⟨e, e', ho, ho'⟩
  · rw [ho, ho', h.newLoad]
    exact h.loadStream _ path path _
  · rw [ho, ho']
    exact h.refuse key rfl

/-- A compiler that runs what it compiles begins to do so in both. -/
theorem compile (h : m.Alike L m') (l : Load) {artifact? : Option Artifact}
    (ha : L.sameWorld → artifact? = l.artifact) (hw : m.world.Keeps l.artifact)
    (hw' : m'.world.Keeps artifact?) (path : String) {us : List CodeUnit}
    (hus : Bytecode.Lossless us) :
    Abreast L
      (({ m with host := m.host.isolated.appendUnits us }.push
        (.compilation { load := l, path, outer := m.host })).enterTopLevel 0)
      (({ m' with host := m'.host.isolated.appendUnits us }.push
        (.compilation { load := { l with artifact := artifact? }, path, outer := m'.host
          })).enterTopLevel 0) := by
  have hx : Machine.Alike L.plain
      { m with host := m.host.isolated.appendUnits us, control := .stuck, stack := [] }
      { m' with host := m'.host.isolated.appendUnits us, control := .stuck, stack := [] } :=
    ⟨h.host.isolated us, .stuck, .nil, h.world.counters, h.world.same⟩
  have hi : ∀ x : Machine, Isolated us x.world
      { x with host := x.host.isolated.appendUnits us, control := .stuck, stack := [] } :=
    fun x => ⟨rfl, rfl, rfl, nofun⟩
  exact .compiling (hx.enter ⟨0, rfl, rfl⟩ .topLevel [] .main) ((hi m).enter 0 .topLevel [] .main)
    ((hi m').enter 0 .topLevel [] .main) hus hw hw' h.host h.stack ha

/-- A source is loaded where a temporary file can be made. -/
theorem compileAndLoad (h : m.Alike L m') (l : Load) {artifact? : Option Artifact}
    (ha : L.sameWorld → artifact? = l.artifact) (hw : m.world.Keeps l.artifact)
    (hw' : m'.world.Keeps artifact?) (source : String) (hpath : path ≠ "") :
    (m.compileAndLoad l path source).Abreast L
      (m'.compileAndLoad { l with artifact := artifact? } path source) := by
  unfold Machine.compileAndLoad
  cases hus : Assembly.assemble source path with
  | error e => exact .alike (h.failLoad (.refl _) l ha)
  | ok us =>
    have hlossless := lossless_of_assemble hus hpath
    dsimp only
    rw [h.host.read (·.compiler) fun _ _ _ => rfl]
    split
    · exact h.compile l ha hw hw' path hlossless
    · exact .alike (h.loadCompiledUnits l ha hw hw' path hlossless)

theorem loadSource (h : m.Alike L m') (key : Option String)
    (hw : m.world.AgreesAt L m.host.config path m'.world) :
    (m.loadSource (m.newLoad key) path).Abreast L (m'.loadSource (m'.newLoad key) path) := by
  have hconfig := h.host.read (·.config) fun _ _ _ => rfl
  unfold Machine.loadSource
  rcases ok_or_error_of_ok_iff hw.readText with ⟨source, hread, hread'⟩ | ⟨e, e', hread, hread'⟩
  · rw [hread, hread']
    dsimp only
    rw [hconfig]
    cases hw.creates with
    | @made a a' v v' hc hc' ha hv =>
      rw [hc, hc', h.newLoad]
      have hm : Machine.Alike L { m with world := v } { m' with world := v' } :=
        ⟨h.host, h.control, h.stack, hv⟩
      exact hm.compileAndLoad { m.newLoad key with artifact := some a }
        (fun hs => congrArg some (ha hs)) (World.keeps_of_createArtifact hc)
        (World.keeps_of_createArtifact hc') source (World.ne_empty_of_readText hread)
    | @missed e e' v v' hc hc' hv =>
      rw [hc, hc']
      have hm : Machine.Alike L { m with world := v } { m' with world := v' } :=
        ⟨h.host, h.control, h.stack, hv⟩
      exact .alike (hm.refuse key rfl)
  · rw [hread, hread']
    exact .alike (h.refuse key rfl)

theorem dispatch (h : m.Alike L m') (key : Option String)
    (hw : m.world.AgreesAt L m.host.config path m'.world) :
    (m.dispatch (m.newLoad key) path).Abreast L (m'.dispatch (m'.newLoad key) path) := by
  unfold Machine.dispatch
  cases ModuleKind.ofPath path with
  | error reason => exact .alike (h.refuse key rfl)
  | ok kind =>
    cases kind with
    | compiled => exact .alike (h.loadBytecode key hw)
    | source => exact h.loadSource key hw
    | native =>
      dsimp only [loadNative]
      have hcontents : ∀ contents, m.world.files.contentsOf m.world.cwd path = .ok contents
          ↔ m'.world.files.contentsOf m'.world.cwd path = .ok contents := by
        intro contents
        rw [FileTree.contentsOf_eq_ok_iff, FileTree.contentsOf_eq_ok_iff, hw.opens]
      rcases ok_or_error_of_ok_iff hcontents with ⟨contents, hc, hc'⟩ | ⟨e, e', hc, hc'⟩
      · rw [hc, hc']
        exact .alike (h.refuse key rfl)
      · rw [hc, hc']
        exact .alike (h.refuse key rfl)

theorem load (h : m.Alike L m') {name : String} (hw : m.world.Agrees L m.host name m'.world) :
    (m.load name).Abreast L (m'.load name) := by
  unfold Machine.load
  rw [h.host.read (·.searchPath) fun _ _ _ => rfl, hw.resolve]
  cases hr : m.world.resolve m.host.searchPath name with
  | error e => exact .alike ⟨h.host, .failing (.refl _), h.stack, h.world⟩
  | ok path => exact h.dispatch none (hw.module path hr)

theorem require (h : m.Alike L m') {name : String} (hw : m.world.Agrees L m.host name m'.world) :
    (m.require name).Abreast L (m'.require name) := by
  unfold Machine.require
  rw [h.host.read (·.searchPath) fun _ _ _ => rfl, hw.resolve]
  cases hr : m.world.resolve m.host.searchPath name with
  | error e => exact .alike ⟨h.host, .failing (.refl _), h.stack, h.world⟩
  | ok path =>
    dsimp only
    rw [h.host.read (·.ledger) fun _ _ _ => rfl]
    cases m.host.ledger.begin? path with
    | none => exact .alike ⟨h.host, .returning _, h.stack, h.world⟩
    | some ledger =>
      have hm : Machine.Alike L (m.mapLedger fun _ => ledger) (m'.mapLedger fun _ => ledger) :=
        ⟨h.host.change (f := fun x => { x with ledger }) fun _ _ _ => rfl, h.control, h.stack,
          h.world⟩
      exact hm.dispatch (some path) (hw.module path hr)

/-! ### Instructions -/

theorem withName (h : m.Alike L m') (args : List Value) {run run' : String → Machine}
    (hr : ∀ name, args = [.str name] → (run name).Abreast L (run' name)) :
    (m.withName args run).Abreast L (m'.withName args run') := by
  unfold Machine.withName
  cases hn : nameArgument args with
  | ok name => exact hr name (nameArgument_eq_ok hn)
  | error e => exact .alike ⟨h.host, .raising (.refl _), h.stack, h.world⟩

theorem callBuiltin (h : m.Alike L m') (b : Builtin) (args : List Value)
    (hw : ∀ name, args = [.str name] → b = .load ∨ b = .require →
      m.world.Agrees L m.host name m'.world) :
    (m.callBuiltin b args).Abreast L (m'.callBuiltin b args) := by
  cases b with
  | print =>
    exact .alike ⟨h.host.change (f := fun x => x.printLine _) fun _ _ _ => rfl, .returning _,
      h.stack, h.world⟩
  | load => exact h.withName args fun name hn => h.load (hw name hn (Or.inl rfl))
  | require => exact h.withName args fun name hn => h.require (hw name hn (Or.inr rfl))
  | addLoadPath =>
    exact h.withName args fun name _ => .alike
      ⟨h.host.change (f := fun x => { x with searchPath := x.searchPath.push name })
        fun _ _ _ => rfl, .returning _, h.stack, h.world⟩

theorem push_call (h : m.Alike L m') (hf : f.Alike L f') (dest : UInt8) :
    (m.push (.call f dest)).Alike L (m'.push (.call f' dest)) :=
  ⟨h.host, h.control, .cons (.call hf dest) h.stack, h.world⟩

theorem raiseIn (h : m.Alike L m') (hf : f.Alike L f') {e e' : Exception} (he : e.Alike L.entries e') :
    (m.raiseIn f e).Alike L (m'.raiseIn f' e') :=
  ⟨h.host.leaveFrame, .raising (he.leaving (h.host.location hf)), h.stack, h.world⟩

theorem returnFrom (h : m.Alike L m') (value : Value) :
    (m.returnFrom value).Alike L (m'.returnFrom value) :=
  ⟨h.host.leaveFrame, .returning value, h.stack, h.world⟩

theorem continueWith (h : m.Alike L m') (hf : f.Alike L f') :
    (m.continueWith f).Alike L (m'.continueWith f') := ⟨h.host, .running hf, h.stack, h.world⟩

theorem assign? (h : m.Alike L m') (hf : f.Alike L f') (dest : UInt8) (value : Value) :
    Option.Rel (Machine.Alike L) (m.assign? f dest value) (m'.assign? f' dest value) := by
  cases hf with
  | @mk unit hi =>
    unfold Machine.assign? Frame.write?
    split
    · exact .some (h.continueWith (f := Frame.advance _) (.mk hi))
    · exact .none

/-- Alike frames call the same builtin. -/
theorem builtinCall? (h : m.Alike L m') (hf : f.Alike L f') :
    m'.builtinCall? f' = m.builtinCall? f := by
  cases hf with
  | @mk unit hi =>
    have hrel := h.host.units_at hi
    unfold Machine.builtinCall?
    generalize m.host.units[f.unit]? = u?, m'.host.units[unit]? = v? at hrel
    cases hrel with
    | none => rfl
    | @some u v hu =>
      dsimp only [Option.bind_eq_bind, Option.bind_some]
      rw [hu.instructions]
      cases u.instructions[f.position]? with
      | none => rfl
      | some i =>
        dsimp only [Option.bind_some]
        split
        · rw [CodeUnit.symbol?, hu.symbols, ← CodeUnit.symbol?]
          cases u.symbol? i.imm with
          | none => rfl
          | some name =>
            dsimp only [Option.bind_some, Frame.window?]
            split
            · dsimp only [Option.bind_some]
              rw [h.host.read (·.builtin? name) fun _ _ _ => rfl]
              have hrel := h.host.function name
              generalize m.host.functions.get? name = i?, m'.host.functions.get? name = j? at hrel
              cases hrel with
              | none => rfl
              | some => rfl
            · rfl
        · rfl

theorem resolves (h : m.Alike L m') {name : String} (hr : m.Resolves name) : m'.Resolves name := by
  obtain ⟨f, dest, b, hc, hb, hloads⟩ := hr
  have hcontrol := h.control
  rw [hc] at hcontrol
  generalize hc' : m'.control = control' at hcontrol
  cases hcontrol with
  | @running _ f' hf => exact ⟨f', dest, b, hc', (h.builtinCall? hf).trans hb, hloads⟩

/-- A call of a function, or of nothing. -/
theorem callByName (h : m.Alike L m') (hf : f.Alike L f') {name : String} (dest : UInt8)
    (args : List Value)
    (hb : m.host.functions.get? name = none → m.host.builtin? name = none) :
    (m.callByName f dest name args).Alike L (m'.callByName f' dest name args) := by
  have hrel := h.host.function name
  unfold Machine.callByName
  rw [hf.receiver_eq, h.host.read (·.builtin? name) fun _ _ _ => rfl]
  cases hget : m.host.functions.get? name with
  | some unit =>
    rw [hget] at hrel
    generalize m'.host.functions.get? name = j? at hrel
    cases hrel with
    | some hindex => exact (h.push_call hf dest).enter hindex _ _ _
  | none =>
    rw [hget] at hrel
    generalize m'.host.functions.get? name = j? at hrel
    cases hrel with
    | none =>
      rw [hb hget]
      exact h.raiseIn hf (.refl _)

/-- A step that calls no builtin. -/
theorem execute? (h : m.Alike L m') (hf : f.Alike L f') {u v : CodeUnit} {i : Instruction}
    (hb : m.builtinCall? f = none) (hu : m.host.units[f.unit]? = some u)
    (hi : u.instructions[f.position]? = some i) (huv : u.Alike L.entries v) :
    Option.Rel (Machine.Alike L) (m.execute? f u i) (m'.execute? f' v i) := by
  have hhalted : Machine.Alike L { m with host := { m.host with halted := true } }
      { m' with host := { m'.host with halted := true } } :=
    ⟨h.host.change (f := fun x => { x with halted := true }) fun _ _ _ => rfl,
      h.control, h.stack, h.world⟩
  have hparts : Parts (Machine.Alike L) m m' f f' u v i := {
    registers := hf.registers_eq
    receiver := hf.receiver_eq
    symbol := by rw [CodeUnit.symbol?, CodeUnit.symbol?, huv.symbols]
    children := huv.children
    globals := h.host.read (·.globals) fun _ _ _ => rfl
    goesOn := fun hs registers _ =>
      ⟨h.host.change fun _ _ _ => by cases hs <;> rfl,
        .running (hf.withRegisters registers).advance, h.stack, h.world⟩
    jumps := fun _ _ => h.continueWith (hf.jumpTo _)
    binds := fun _ _ _ =>
      ⟨h.host.defineFunction _ (hf.index.add _), .running hf.advance, h.stack, h.world⟩
    calls := fun hop hn ha => by
      refine h.callByName hf i.dest _ fun hget => ?_
      rwa [builtinCall?_of_instruction hu hi hop hn ha hget, Option.map_eq_none_iff] at hb
    raises := fun _ => h.raiseIn hf (.refl _)
    returns := fun value _ => h.returnFrom value
    halts := fun _ => hhalted.returnFrom .nil }
  exact hparts.execute?

/-- Nothing is being compiled in alike machines. -/
theorem settled (h : m.Alike L m') (c : Compilation) : Activation.compilation c ∉ m.stack := by
  have hstack := h.stack
  generalize m.stack = stack, m'.stack = stack' at hstack
  induction hstack with
  | nil => nofun
  | cons ha _ ih =>
    intro hc
    rcases List.mem_cons.1 hc with rfl | hc
    · cases ha
    · exact ih hc

theorem fetch (h : m.Alike L m') (hf : f.Alike L f') (hc : m.control = .running f)
    (hknown : L.Knows m) (hw : ∀ name, m.Resolves name → m.world.Agrees L m.host name m'.world) :
    (m.fetch f).Abreast L (m'.fetch f') := by
  cases hb : m.builtinCall? f with
  | some call =>
    obtain ⟨dest, b, args⟩ := call
    rw [fetch_of_builtinCall? hb, fetch_of_builtinCall? ((h.builtinCall? hf).trans hb)]
    refine (h.push_call hf dest).callBuiltin b args ?_
    rintro name rfl hloads
    exact hw name ⟨f, dest, b, hc, hb, hloads⟩
  | none =>
    have hrel := h.host.units_at hf.index
    have hposition : f'.position = f.position := by
      obtain ⟨_⟩ := hf
      rfl
    refine .alike ?_
    unfold Machine.fetch
    cases hu : m.host.units[f.unit]? with
    | none =>
      rw [hu] at hrel
      generalize m'.host.units[f'.unit]? = v? at hrel
      cases hrel with
      | none =>
        obtain ⟨k, hi, hj⟩ := hf.index
        rw [show f'.unit = f.unit by rw [hi, hj, hknown h.settled f hc hu]]
        exact ⟨h.host.leaveFrame, .raising (.refl _), h.stack, h.world⟩
    | some u =>
      rw [hu] at hrel
      generalize m'.host.units[f'.unit]? = v? at hrel
      cases hrel with
      | @some _ v huv =>
        dsimp only
        rw [huv.instructions, hposition]
        cases hi : u.instructions[f.position]? with
        | none => exact h.returnFrom .nil
        | some i =>
          dsimp only
          have hrel := h.execute? hf hb hu hi huv
          generalize m.execute? f u i = x?, m'.execute? f' v i = y? at hrel
          cases hrel with
          | none => exact ⟨h.host, .stuck, h.stack, h.world⟩
          | some hm => exact hm

/-! ### Steps -/

/-- What waits on top is taken off both stacks. -/
theorem pop (h : m.Alike L m') {s s' : List Activation}
    (hs : List.Forall₂ (Activation.Alike L) s s') :
    Machine.Alike L { m with stack := s } { m' with stack := s' } :=
  ⟨h.host, h.control, hs, h.world⟩

theorem returnTo (h : m.Alike L m') (value : Value) {a a' : Activation}
    (ha : a.Alike L a') : (m.returnTo value a).Alike L (m'.returnTo value a') := by
  cases ha with
  | load l hsame => exact h.finishLoad l hsame
  | call hf dest =>
    dsimp only [Machine.returnTo, resume]
    rw [h.host.read (·.halted) fun _ _ _ => rfl]
    split
    · exact h.returnFrom .nil
    · have hrel := h.assign? hf dest value
      generalize m.assign? _ dest value = x?, m'.assign? _ dest value = y? at hrel
      cases hrel with
      | none => exact ⟨h.host, .stuck, h.stack, h.world⟩
      | some hm => exact hm

theorem raiseTo (h : m.Alike L m') {e e' : Exception} (he : e.Alike L.entries e') {a a' : Activation}
    (ha : a.Alike L a') : (m.raiseTo e a).Alike L (m'.raiseTo e' a') := by
  cases ha with
  | load l hsame =>
    have hraised : (LoadError.raised e).toException.Alike L.entries
        (LoadError.raised e').toException := he
    exact h.failLoad hraised l hsame
  | call hf dest => exact h.raiseIn hf he

theorem step (h : m.Alike L m') (hknown : L.Knows m)
    (hw : ∀ name, m.Resolves name → m.world.Agrees L m.host name m'.world) :
    m.step.Abreast L m'.step := by
  obtain ⟨host, world, control, stack⟩ := m
  obtain ⟨host', world', control', stack'⟩ := m'
  obtain ⟨hhost, hcontrol, hstack, -⟩ := id h
  cases hcontrol with
  | running hf => exact h.fetch hf rfl hknown hw
  | stuck => exact .alike h
  | returning value =>
    cases hstack with
    | nil => exact .alike h
    | cons ha hs => exact .alike ((h.pop hs).returnTo value ha)
  | raising he =>
    cases hstack with
    | nil => exact .alike h
    | cons ha hs => exact .alike ((h.pop hs).raiseTo he ha)
  | failing he =>
    cases hstack with
    | nil => exact .alike h
    | cons ha hs => exact .alike ((h.pop hs).raiseTo he ha)

theorem isDone (h : m.Alike L m') : m'.isDone = m.isDone := by
  obtain ⟨host, world, control, stack⟩ := m
  obtain ⟨host', world', control', stack'⟩ := m'
  obtain ⟨hhost, hcontrol, hstack, -⟩ := h
  cases hcontrol with
  | running hf => rfl
  | stuck => rfl
  | returning | raising | failing => cases hstack <;> rfl

end Machine.Alike

/-! ### Results -/

theorem Machine.sameResult {m m' : Machine} (h : m.control.Alike L m'.control) :
    Option.Rel (SameResult (Exception.Alike L.entries)) m.value? m'.value? := by
  unfold value?
  generalize m.control = control, m'.control = control' at h
  cases h with
  | running | stuck => exact .none
  | returning value => exact .some (.ok value)
  | raising he | failing he => exact .some (.error he)

/-! ### Compilations -/

namespace Machine.Abreast

variable {m m' : Machine} {us : List CodeUnit} {w w' : World} {h h' : Host}
  {stack stack' : List Activation} {l : Load} {artifact? : Option Artifact} {path : String}

/-- Where only frames wait nothing is being compiled. -/
theorem of_isolated (ha : m.Abreast L m') (hi : m.Isolated us w) : m.Alike L m' := by
  cases ha with
  | alike h => exact h
  | compiling =>
    obtain ⟨f, dest, heq⟩ := hi.calls _ (List.mem_append_right _ List.mem_cons_self)
    cases heq

/-- Code in a host of its own does not see in which world it runs. -/
theorem run_isolated (ha : m.Alike L m') (hi : m.Isolated us w) (hL : L.first = L.second)
    (n : Nat) : (m.run n).Alike L (m'.run n) := by
  induction n with
  | zero => exact ha
  | succ n ih =>
    have hin := hi.run n
    rw [run_succ', run_succ']
    have hstep : (m.run n).step.Abreast L (m'.run n).step :=
      ih.step (fun _ _ _ _ => hL) fun name hname => absurd hname (hin.not_resolves name)
    exact hstep.of_isolated hin.step

/-- What resolves a name is not being compiled. -/
theorem of_resolves (ha : m.Abreast L m') {name : String} (hr : m.Resolves name) :
    m.Alike L m' := by
  cases ha with
  | alike h => exact h
  | compiling _ hi => exact absurd hr (hi.not_resolves name)

/-- The code that was compiled has come to its end. -/
theorem step_compiled {x x' : Machine} (hx : x.Alike L.plain x') (hdone : x.isDone = true)
    (hi : x.Isolated us w) (hi' : x'.Isolated us w') (hus : Bytecode.Lossless us)
    (hw : w.Keeps l.artifact) (hw' : w'.Keeps artifact?) (hh : h.Alike L h')
    (hs : List.Forall₂ (Activation.Alike L) stack stack')
    (ha : L.sameWorld → artifact? = l.artifact) :
    Abreast L (x.above (.compilation { load := l, path, outer := h } :: stack)).step
      (x'.above (.compilation
        { load := { l with artifact := artifact? }, path, outer := h' } :: stack')).step := by
  obtain ⟨host, world, control, waiting⟩ := x
  obtain ⟨host', world', control', waiting'⟩ := x'
  obtain ⟨hhost, hcontrol, hstack, hworld⟩ := id hx
  obtain ⟨-, rfl, rfl, -⟩ := id hi
  obtain ⟨-, hunits, rfl, -⟩ := id hi'
  have hm : ∀ {c c' : Control}, c.Alike L c' →
      Machine.Alike L ⟨h, world, c, stack⟩ ⟨h', world', c', stack'⟩ :=
    fun hc => ⟨hh, hc, hs, hworld.counters, hworld.same⟩
  have hfail : ∀ {c c' : Control} {e e' : Exception}, c.Alike L c' → e.Alike L.entries e' →
      (failLoad ⟨h, world, c, stack⟩ l (.uncompiled path e.text)).Alike L
        (failLoad ⟨h', world', c', stack'⟩ { l with artifact := artifact? }
          (.uncompiled path e'.text)) := by
    intro c c' e e' hc he
    rw [show e'.text = e.text by cases he; rfl]
    exact (hm hc).failLoad (.refl _) l ha
  cases hcontrol with
  | running f => cases hdone
  | stuck => exact .compiling hx hi hi' hus hw hw' hh hs ha
  | returning value =>
    cases List.isEmpty_iff.1 hdone
    cases hstack
    have hloaded := (hm (.returning value)).loadCompiledUnits l ha hw hw' path hus
    rw [show (above ⟨host', world', .returning value, []⟩ _).step
      = loadCompiledUnits ⟨h', world', .returning value, stack'⟩ _ path host'.units from rfl, hunits]
    exact .alike hloaded
  | raising he =>
    cases List.isEmpty_iff.1 hdone
    cases hstack
    exact .alike (hfail (.raising he) he)
  | failing he =>
    cases List.isEmpty_iff.1 hdone
    cases hstack
    exact .alike (hfail (.failing he) he)

/-- Alike machines take alike steps, if the worlds agree on the module that is loaded next. -/
theorem step (ha : m.Abreast L m') (hknown : L.Knows m)
    (hw : ∀ name, m.Resolves name → m.world.Agrees L m.host name m'.world) :
    m.step.Abreast L m'.step := by
  cases ha with
  | alike h => exact h.step hknown hw
  | @compiling x x' us w w' h h' stack stack' l artifact? path hx hi hi' hus hk hk' hh hs ha =>
    cases hdone : x.isDone with
    | true => exact step_compiled hx hdone hi hi' hus hk hk' hh hs ha
    | false =>
      rw [step_above x _ hdone, step_above x' _ (hx.isDone.trans hdone)]
      have hstep : x.step.Abreast L.plain x'.step :=
        hx.step (fun _ _ _ _ => rfl) fun name hname => absurd hname (hi.not_resolves name)
      exact .compiling (hstep.of_isolated hi.step) hi.step hi'.step hus hk hk' hh hs ha

/-- Code that is being compiled comes to no end of its own, unless it is stuck. -/
theorem alike_or_stuck (ha : m.Abreast L m') (hdone : m.isDone = true) :
    m.Alike L m' ∨ m.control = .stuck ∧ m'.control = .stuck := by
  cases ha with
  | alike h => exact Or.inl h
  | @compiling x x' _ _ _ _ _ _ _ _ _ _ hx =>
    obtain ⟨host, world, control, waiting⟩ := x
    obtain ⟨host', world', control', waiting'⟩ := x'
    obtain ⟨-, hcontrol, hstack, -⟩ := hx
    cases hcontrol with
    | running => cases hdone
    | stuck => exact Or.inr ⟨rfl, rfl⟩
    | returning | raising | failing => cases hstack <;> cases hdone

theorem sameResult (ha : m.Abreast L m') :
    Option.Rel (SameResult (Exception.Alike L.entries)) m.value? m'.value? := by
  cases ha with
  | alike h => exact Machine.sameResult h.control
  | @compiling x x' _ _ _ _ _ _ _ _ _ _ hx =>
    exact Machine.sameResult (L := L.plain) (m := x) hx.control

/-- Where no entries but the same stand for each other, the results are the same. -/
theorem value?_eq (ha : m.Abreast L m') (hL : L.entries = Eq) : m'.value? = m.value? := by
  have hrel := ha.sameResult
  rw [hL] at hrel
  generalize m.value? = r?, m'.value? = r'? at hrel
  cases hrel with
  | none => rfl
  | some hr =>
    cases hr with
    | ok => rfl
    | error he => rw [he.eq]

theorem isDone (ha : m.Abreast L m') : m'.isDone = m.isDone := by
  cases ha with
  | alike h => exact h.isDone
  | @compiling x x' _ _ _ _ _ _ _ _ _ _ hx =>
    obtain ⟨host, world, control, waiting⟩ := x
    obtain ⟨host', world', control', waiting'⟩ := x'
    obtain ⟨-, hcontrol, hstack, -⟩ := hx
    cases hcontrol with
    | running | stuck => rfl
    | returning | raising | failing => cases hstack <;> rfl

end Machine.Abreast

end ModuleHost
