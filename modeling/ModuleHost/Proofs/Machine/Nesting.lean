import ModuleHost.Proofs.Machine.Ordinary
import ModuleHost.Proofs.Machine.Unwinding

/-!
# How frames nest

Where the compiler runs nothing, every frame is entered by an invocation, by a call or by a load,
and all frames belong to one host.  So the depth of the host counts the frames that have been
entered since the invocation, every frame that waits is executing a call, and no frame is entered
above the limit (`Nested.step`).  `Begun` lists what the begin of a load can come to there.
-/

namespace ModuleHost

/-- The exception has left no frame yet, and does not say that too many are active. -/
structure Exception.IsPlain (e : Exception) : Prop where
  backtrace : e.backtrace = []
  not_isOverflow : ¬ e.IsOverflow

theorem LoadError.isPlain_toException {e : LoadError} (he : e.isRaised = false) :
    e.toException.IsPlain := by
  have hload : "LoadError" ≠ "SystemStackError" := by decide
  have hnative : "RuntimeError" ≠ "SystemStackError" := by decide
  cases e with
  | raised x => cases he
  | native path fault => exact ⟨rfl, hnative⟩
  | notFound | unknownKind | unreadable | uncompiled => exact ⟨rfl, hload⟩

theorem Host.isPlain_of_pendingFor? {e : Bytecode.DecodeError} {x : Exception}
    (h : pendingFor? e = some x) : x.IsPlain := by
  unfold pendingFor? at h
  split at h
  · cases h
    exact ⟨rfl, show "ScriptError" ≠ "SystemStackError" by decide⟩
  · cases h

theorem World.isRaised_of_resolve {w : World} {searchPath : SearchPath} {name : String}
    {e : LoadError} (h : w.resolve searchPath name = .error e) : e.isRaised = false := by
  rw [eq_notFound_of_resolve h]
  rfl

namespace Machine

/-! ### The begin of a load -/

/-- What the begin of a load can come to where the compiler runs nothing: a failure, with a new
exception or with the one that was pending; or the units of the module stand behind the others, and
its frame is entered. -/
inductive Begun (m : Machine) : Machine → Prop
  | failed {pending : Option Exception} {arena : List Value} {ledger : Ledger} {world : World}
      {e : LoadError} (hp : pending = m.host.pending ∨ pending = none)
      (he : e.toException.IsPlain ∨ m.host.pending = some e.toException ∧ pending = none) :
      Begun m { m with
        host := { m.host with pending, arena, ledger }, world, control := .failing e }
  | entered {units : List CodeUnit} {arena : List Value} {ledger : Ledger} {world : World}
      (l : Load) :
      Begun m (({ m with host := { m.host with arena, ledger }.appendUnits units, world }.push
        (.load l)).enterTopLevel m.host.units.length)

variable {m m' : Machine} {l : Load}

/-- The ledger and the files may have been changed before. -/
theorem Begun.of_ledger (ledger : Ledger) (world : World)
    (h : Begun { m with host := { m.host with ledger }, world } m') : Begun m m' := by
  cases h with
  | failed hp he => exact .failed hp he
  | entered l => exact .entered l

theorem begun_failLoad (m : Machine) (l : Load) {e : LoadError} (he : e.isRaised = false) :
    Begun m (m.failLoad l e) := by
  rw [failLoad_eq]
  exact .failed (Or.inl rfl) (Or.inl (LoadError.isPlain_toException he))

theorem begun_loadStream (m : Machine) (l : Load) (path attribution : String)
    (stream : Except Bytecode.StreamFault (List UInt8)) :
    Begun m (m.loadStream l path attribution stream) := by
  cases hr : Bytecode.readStream stream with
  | ok units =>
    rw [loadStream_of_ok m l hr]
    exact .entered l
  | error e =>
    rw [loadStream_of_error m l hr, failLoad_eq]
    refine .failed (Or.inr rfl) ?_
    cases hnew : Host.pendingFor? e with
    | some x => exact Or.inl (Host.isPlain_of_pendingFor? hnew)
    | none =>
      cases hp : m.host.pending with
      | some x => exact Or.inr ⟨rfl, rfl⟩
      | none => exact Or.inl (LoadError.isPlain_toException rfl)

theorem begun_loadCompiledUnits (m : Machine) (l : Load) (path : String) (units : List CodeUnit) :
    Begun m (m.loadCompiledUnits l path units) := by
  unfold loadCompiledUnits
  split
  · exact (begun_loadStream { m with world := _ } l _ path _).of_ledger m.host.ledger _
  · exact begun_failLoad m l rfl

theorem begun_compileAndLoad (m : Machine) (l : Load) (path source : String)
    (hc : m.host.compiler = .onRequest) : Begun m (m.compileAndLoad l path source) := by
  unfold compileAndLoad
  cases Assembly.assemble source path with
  | error e => exact begun_failLoad m l rfl
  | ok units =>
    dsimp only
    rw [hc, if_neg (show ¬ Compiler.onRequest.executes .declare = true by decide)]
    exact begun_loadCompiledUnits m l path units

theorem Handed.begun {path : String} (h : Handed m l path m') (hc : m.host.compiler = .onRequest) :
    Begun m m' := by
  cases h with
  | @fails m₁ l₁ e hp he =>
    have hfailed := begun_failLoad m₁ l₁ he.isRaised
    cases hp with
    | plain => exact hfailed
    | missed | made => exact hfailed.of_ledger m.host.ledger _
  | streams => exact begun_loadStream m l path path _
  | @compiles source a world =>
    exact (begun_compileAndLoad { m with world } _ path source hc).of_ledger m.host.ledger world

/-- What the call of a builtin can come to: it returns, it raises a new exception, or it has begun a
load. -/
inductive Answered (m : Machine) : Machine → Prop
  | returns {output : List String} {searchPath : SearchPath} (value : Value) :
      Answered m { m with
        host := { m.host with output, searchPath }, control := .returning value }
  | raises {e : Exception} (he : e.IsPlain) : Answered m { m with control := .raising e }
  | loads {m' : Machine} (h : Begun m m') : Answered m m'

theorem isPlain_of_nameArgument {args : List Value} {e : Exception}
    (h : nameArgument args = .error e) : e.IsPlain := by
  unfold nameArgument at h
  split at h
  · cases h
  · cases h
    exact ⟨rfl, Exception.not_isOverflow_typeError _⟩
  · cases h
    exact ⟨rfl, Exception.not_isOverflow_argumentError _⟩

theorem answered_callBuiltin (m : Machine) (b : Builtin) (args : List Value)
    (hc : m.host.compiler = .onRequest) : Answered m (m.callBuiltin b args) := by
  generalize m.callBuiltin b args = m', callBuiltin_cases m b args = hcalled
  cases hcalled with
  | prints | adds => exact .returns .nil
  | refuses he => exact .raises (isPlain_of_nameArgument he)
  | unresolved hb hr =>
    have hplain := LoadError.isPlain_toException (World.isRaised_of_resolve hr)
    exact .loads (.failed (Or.inl rfl) (Or.inl hplain))
  | known => exact .returns (.bool false)
  | loads => exact .loads ((dispatch_handed m _ _).begun hc)
  | @requires name path =>
    have hhanded := dispatch_handed (m.mapLedger (·.markLoading path)) (m.newLoad (some path)) path
    exact .loads ((hhanded.begun hc).of_ledger _ m.world)

end Machine

/-! ### Frames and the depth -/

def Control.frames : Control → Nat
  | .running _ | .stuck => 1
  | .returning _ | .raising _ | .failing _ => 0

open Machine

/-- With `n` frames that do not wait, the depth of the host says how many frames have been entered
since the host was `first`; each that waits is executing an instruction. -/
structure Host.Nests (first h : Host) (stack : List Activation) (n : Nat) : Prop where
  compiler : h.compiler = .onRequest
  outermost : Outermost stack
  pending : h.pending = first.pending ∨ h.pending = none
  waiting : ∀ f ∈ callers stack, (h.instruction? f).isSome = true
  depth : h.depth = first.depth + n + (callers stack).length
  le : h.depth ≤ Host.maxDepth

namespace Host.Nests

variable {first h h' : Host} {stack : List Activation} {n : Nat} {f : Frame} {dest : UInt8}
  {l : Load}

/-- What the depth does not count may change, but for the compiler, and units may be put behind the
others. -/
theorem keep (hn : first.Nests h stack n) (hcompiler : h'.compiler = h.compiler)
    (hunits : h.units <+: h'.units) (hdepth : h'.depth = h.depth)
    (hpending : h'.pending = h.pending ∨ h'.pending = none) : first.Nests h' stack n where
  compiler := hcompiler.trans hn.compiler
  outermost := hn.outermost
  pending := by
    rcases hpending with hsame | hnone
    · rw [hsame]
      exact hn.pending
    · exact Or.inr hnone
  waiting f hf := by
    obtain ⟨i, hi⟩ := Option.isSome_iff_exists.1 (hn.waiting f hf)
    rw [instruction?_of_isPrefix hunits hi]
    rfl
  depth := hdepth.trans hn.depth
  le := hdepth ▸ hn.le

theorem push_call (hn : first.Nests h stack 1) (hi : (h.instruction? f).isSome = true) :
    first.Nests h (.call f dest :: stack) 0 where
  compiler := hn.compiler
  outermost := hn.outermost
  pending := hn.pending
  waiting := List.forall_mem_cons.2 ⟨hi, hn.waiting⟩
  depth := by
    rw [callers_call, List.length_cons, hn.depth]
    omega
  le := hn.le

theorem pop_call (hn : first.Nests h (.call f dest :: stack) 0) : first.Nests h stack 1 where
  compiler := hn.compiler
  outermost := hn.outermost
  pending := hn.pending
  waiting f' hf' := hn.waiting f' (List.mem_cons_of_mem f hf')
  depth := by
    rw [hn.depth, callers_call, List.length_cons]
    omega
  le := hn.le

theorem push_load (hn : first.Nests h stack n) : first.Nests h (.load l :: stack) n :=
  ⟨hn.compiler, hn.outermost, hn.pending, hn.waiting, hn.depth, hn.le⟩

theorem pop_load (hn : first.Nests h (.load l :: stack) n) : first.Nests h stack n :=
  ⟨hn.compiler, hn.outermost, hn.pending, hn.waiting, hn.depth, hn.le⟩

theorem enterFrame (hn : first.Nests h stack 0) (hlt : h.depth < maxDepth) :
    first.Nests h.enterFrame stack 1 where
  compiler := hn.compiler
  outermost := hn.outermost
  pending := hn.pending
  waiting := hn.waiting
  depth := by
    show h.depth + 1 = _
    rw [hn.depth]
    omega
  le := hlt

theorem leaveFrame (hn : first.Nests h stack 1) : first.Nests h.leaveFrame stack 0 where
  compiler := hn.compiler
  outermost := hn.outermost
  pending := hn.pending
  waiting := hn.waiting
  depth := by
    show h.depth - 1 = _
    rw [hn.depth]
    omega
  le := Nat.le_trans (Nat.sub_le _ _) hn.le

end Host.Nests

namespace Machine

variable {first : Host} {m m' : Machine} {f : Frame}

theorem frames_of_value? (hvalue : m.value?.isSome = true) : m.control.frames = 0 := by
  obtain ⟨host, world, control, stack⟩ := m
  cases control with
  | running f | stuck => cases hvalue
  | returning v | raising e | failing e => rfl

def Nested (first : Host) (m : Machine) : Prop :=
  first.Nests m.host m.stack m.control.frames

theorem nested_idle (h : Host) (w : World) (hc : h.compiler = .onRequest)
    (hd : h.depth ≤ Host.maxDepth) : (idle h w).Nested h :=
  ⟨hc, trivial, Or.inl rfl, nofun, rfl, hd⟩

theorem nested_enter (hn : first.Nests m.host m.stack 0) (unit : Nat) (scope : Scope)
    (args : List Value) (receiver : Value) : (m.enter unit scope args receiver).Nested first := by
  unfold enter
  split
  · exact hn
  · rename_i hlt
    exact hn.enterFrame (Nat.not_le.1 hlt)

theorem Begun.nested (hb : Begun m m') (hn : first.Nests m.host m.stack 0) : m'.Nested first := by
  cases hb with
  | failed hp _ => exact hn.keep rfl List.prefix_rfl rfl hp
  | @entered units arena ledger world l =>
    have hhost : first.Nests ({ m.host with arena, ledger }.appendUnits units) m.stack 0 :=
      hn.keep rfl (List.prefix_append _ _) rfl (Or.inl rfl)
    exact nested_enter (m := { m with host := _, world }.push (.load l)) hhost.push_load _ _ _ _

theorem Answered.nested (ha : Answered m m') (hn : first.Nests m.host m.stack 0) :
    m'.Nested first := by
  cases ha with
  | returns => exact hn.keep rfl List.prefix_rfl rfl (Or.inl rfl)
  | raises => exact hn
  | loads hb => exact hb.nested hn

theorem Effect.nests {u : CodeUnit} {h h' : Host} {stack : List Activation} {n : Nat}
    (he : Effect f u h h') (hn : first.Nests h stack n) : first.Nests h' stack n := by
  cases he <;> exact hn.keep rfl List.prefix_rfl rfl (Or.inl rfl)

theorem Executed.nested (he : Executed m f m') (hn : first.Nests m.host m.stack 1)
    (hi : (m.host.instruction? f).isSome = true) : m'.Nested first := by
  cases he with
  | goesOn _ heffect => exact heffect.nests hn
  | calls dest args _ => exact nested_enter (m := m.push (.call f dest)) (hn.push_call hi) _ _ _ _
  | returns | raises | lost => exact hn.leaveFrame
  | halts =>
    have hhalted : first.Nests { m.host with halted := true } m.stack 1 :=
      hn.keep rfl List.prefix_rfl rfl (Or.inl rfl)
    exact hhalted.leaveFrame
  | stuck => exact hn

/-- The step of a frame that has no instruction. -/
theorem fetch_of_instruction?_eq_none (hi : m.host.instruction? f = none) :
    m.fetch f = m.returnFrom .nil
      ∨ m.fetch f = { m with
          host := m.host.leaveFrame
          control := .raising (.runtimeError ("no unit at index " ++ toString f.unit)) } := by
  rw [Host.instruction?, Option.bind_eq_bind, Option.bind_eq_none_iff] at hi
  unfold fetch
  cases hu : m.host.units[f.unit]? with
  | none => exact Or.inr rfl
  | some u =>
    dsimp only
    rw [hi u hu]
    exact Or.inl rfl

theorem nested_fetch (hn : first.Nests m.host m.stack 1) (f : Frame) :
    (m.fetch f).Nested first := by
  cases hi : m.host.instruction? f with
  | none =>
    rcases fetch_of_instruction?_eq_none hi with hf | hf
    · rw [hf]
      exact hn.leaveFrame
    · rw [hf]
      exact hn.leaveFrame
  | some i =>
    have hsome : (m.host.instruction? f).isSome = true := by
      rw [hi]
      rfl
    cases hb : m.builtinCall? f with
    | none => exact (fetch_executed hb).nested hn hsome
    | some call =>
      obtain ⟨dest, b, args⟩ := call
      rw [fetch_of_builtinCall? hb]
      exact (answered_callBuiltin (m.push (.call f dest)) b args hn.compiler).nested
        (hn.push_call hsome)

theorem nested_returnTo {a : Activation} (hn : first.Nests m.host (a :: m.stack) 0)
    (value : Value) : (m.returnTo value a).Nested first := by
  cases a with
  | compilation c => exact hn.outermost.elim
  | load l =>
    rw [returnTo, finishLoad_eq]
    exact hn.pop_load.keep rfl List.prefix_rfl rfl (Or.inl rfl)
  | call f dest =>
    show (m.resume f dest value).Nested first
    unfold resume assign?
    split
    · exact hn.pop_call.leaveFrame
    · cases f.write? dest value <;> exact hn.pop_call

theorem nested_raiseTo {a : Activation} (hn : first.Nests m.host (a :: m.stack) 0) (e : Exception) :
    (m.raiseTo e a).Nested first := by
  cases a with
  | compilation c => exact hn.outermost.elim
  | call f dest => exact hn.pop_call.leaveFrame
  | load l =>
    rw [raiseTo, failLoad_eq]
    exact hn.pop_load.keep rfl List.prefix_rfl rfl (Or.inl rfl)

/-- Every step keeps the count. -/
theorem Nested.step (hn : m.Nested first) : m.step.Nested first := by
  generalize m.step = m', stepped m = hs
  have hnests : first.Nests m.host m.stack m.control.frames := hn
  cases hs with
  | fetches hc =>
    rw [hc] at hnests
    exact nested_fetch hnests _
  | stays hdone => exact hn
  | @returns value a stack hc hstack =>
    rw [hc, hstack] at hnests
    exact nested_returnTo (m := { m with stack }) hnests value
  | @raises e a stack he hstack =>
    rw [frames_of_value? (by rw [he]; rfl), hstack] at hnests
    exact nested_raiseTo (m := { m with stack }) hnests e

theorem Nested.run (hn : m.Nested first) (n : Nat) : (m.run n).Nested first :=
  run_induction (P := Nested first) (fun _ h => h.step) hn n

end Machine

end ModuleHost
