import ModuleHost.Proofs.Machine.Moves

/-!
# Changing a unit that no frame runs

A machine reads a unit only to execute an instruction of it, to say where a frame is, and to count
how many units there are.  So where the unit `k` has been changed, a frame that does not see the
change takes the same step (`fetch_changed`).  `Changes k c` relates two machines that differ in
nothing but the unit `k` of the host that loads, which no frame of this host runs; they remain so as
long as no function is bound to it (`Changes.step`).
-/

namespace ModuleHost

/-- What the unit `u'` has for a frame at `position` is what `u` has for it. -/
structure CodeUnit.AgreesAt (position : Nat) (u u' : CodeUnit) : Prop where
  instruction : u'.instructions[position]? = u.instructions[position]?
  line : u'.lineAt position = u.lineAt position
  symbols : u'.symbols = u.symbols
  children : u'.children = u.children
  filename : u'.filename = u.filename

theorem CodeUnit.AgreesAt.refl (position : Nat) (u : CodeUnit) : u.AgreesAt position u :=
  ⟨rfl, rfl, rfl, rfl, rfl⟩

theorem CodeUnit.AgreesAt.symbol? {position : Nat} {u u' : CodeUnit} (h : u.AgreesAt position u') :
    u'.symbol? = u.symbol? := by
  funext index
  rw [CodeUnit.symbol?, CodeUnit.symbol?, h.symbols]

theorem modify_append_of_lt {α : Type} {xs : List α} {k : Nat} (h : k < xs.length) (change : α → α)
    (ys : List α) : xs.modify k change ++ ys = (xs ++ ys).modify k change := by
  induction xs generalizing k with
  | nil => cases h
  | cons x xs ih =>
    cases k with
    | zero => rfl
    | succ k => exact congrArg (x :: ·) (ih (Nat.lt_of_succ_lt_succ h))

/-- Units are put behind the others whichever unit has been changed. -/
theorem Host.appendUnits_modifyUnit (h : Host) {k : Nat} (hk : k < h.units.length)
    (c : CodeUnit → CodeUnit) (us : List CodeUnit) :
    (h.modifyUnit k c).appendUnits us = (h.appendUnits us).modifyUnit k c := by
  simp only [appendUnits, modifyUnit, modify_append_of_lt hk]

namespace Machine

def changed (m : Machine) (k : Nat) (c : CodeUnit → CodeUnit) : Machine :=
  { m with host := m.host.modifyUnit k c }

/-- The host has the unit `k`, no frame that waits runs it, and nothing is being compiled. -/
structure Avoids (k : Nat) (h : Host) (stack : List Activation) : Prop where
  size : k < h.units.length
  outermost : Outermost stack
  callers : ∀ f ∈ callers stack, f.unit ≠ k

/-- The unit `k` has been changed in the host, or, while something is being compiled, in the host
that waits; no frame of this host runs it. -/
inductive Changes (k : Nat) (c : CodeUnit → CodeUnit) : Machine → Machine → Prop
  | here {m : Machine} (h : Avoids k m.host m.stack)
      (hc : ∀ f, m.control = .running f → f.unit ≠ k) :
      Changes k c m (m.changed k c)
  | below {y : Machine} {p : Compilation} {rest : List Activation} (h : Avoids k p.outer rest) :
      Changes k c (y.above (.compilation p :: rest))
        (y.above (.compilation { p with outer := p.outer.modifyUnit k c } :: rest))

variable {m m' : Machine} {k : Nat} {c : CodeUnit → CodeUnit} {f : Frame} {u u' : CodeUnit}

section

variable (m k c)

/-! ### What does not look at the units -/

theorem enter_changed (unit : Nat) (scope : Scope) (args : List Value) (receiver : Value) :
    (m.changed k c).enter unit scope args receiver
      = (m.enter unit scope args receiver).changed k c := by
  unfold enter
  by_cases h : m.host.depth ≥ Host.maxDepth
  · rw [if_pos h, if_pos (show (m.changed k c).host.depth ≥ Host.maxDepth from h)]
    rfl
  · rw [if_neg h, if_neg (show ¬ (m.changed k c).host.depth ≥ Host.maxDepth from h)]
    rfl

theorem finishLoad_changed (l : Load) :
    (m.changed k c).finishLoad l = (m.finishLoad l).changed k c := by
  rw [finishLoad_eq, finishLoad_eq]
  rfl

theorem failLoad_changed (l : Load) (e : LoadError) :
    (m.changed k c).failLoad l e = (m.failLoad l e).changed k c := by
  rw [failLoad_eq, failLoad_eq]
  rfl

theorem resume_changed (f : Frame) (dest : UInt8) (value : Value) :
    (m.changed k c).resume f dest value = (m.resume f dest value).changed k c := by
  unfold resume assign?
  by_cases h : m.host.halted = true
  · rw [if_pos h, if_pos (show (m.changed k c).host.halted = true from h)]
    rfl
  · rw [if_neg h, if_neg (show ¬ (m.changed k c).host.halted = true from h)]
    cases f.write? dest value <;> rfl

end

/-! ### What a frame sees of its unit -/

/-- The units that a frame finds at its index agree where it is. -/
def Unseen (m : Machine) (k : Nat) (c : CodeUnit → CodeUnit) (f : Frame) : Prop :=
  Option.Rel (CodeUnit.AgreesAt f.position) m.host.units[f.unit]?
    (m.changed k c).host.units[f.unit]?

theorem unseen_of_ne (hf : f.unit ≠ k) : m.Unseen k c f := by
  have hsame : (m.changed k c).host.units[f.unit]? = m.host.units[f.unit]? :=
    List.getElem?_modify_ne c _ (Ne.symm hf)
  rw [Unseen, hsame]
  cases m.host.units[f.unit]? with
  | none => exact .none
  | some u => exact .some (.refl _ u)

theorem Unseen.location (h : m.Unseen k c f) :
    f.location (m.changed k c).host.units = f.location m.host.units := by
  unfold Unseen at h
  rw [Frame.location, Frame.location]
  generalize m.host.units[f.unit]? = u?, (m.changed k c).host.units[f.unit]? = u'? at h
  cases h with
  | none => rfl
  | some hu => simp only [hu.filename, hu.line]

theorem Unseen.raiseIn (h : m.Unseen k c f) (e : Exception) :
    (m.changed k c).raiseIn f e = (m.raiseIn f e).changed k c := by
  rw [Machine.raiseIn, Machine.raiseIn, h.location]
  rfl

theorem Unseen.builtinCall? (h : m.Unseen k c f) :
    (m.changed k c).builtinCall? f = m.builtinCall? f := by
  unfold Unseen at h
  unfold Machine.builtinCall?
  generalize m.host.units[f.unit]? = u?, (m.changed k c).host.units[f.unit]? = u'? at h
  cases h with
  | none => rfl
  | some hu =>
    simp only [Option.bind_eq_bind, Option.bind_some, hu.instruction, hu.symbol?]
    rfl

/-- The call of a function, or of nothing. -/
theorem Unseen.callByName (h : m.Unseen k c f) {name : String} (dest : UInt8) (args : List Value)
    (hb : m.host.functions.get? name = none → m.host.builtin? name = none) :
    (m.changed k c).callByName f dest name args
      = (m.callByName f dest name args).changed k c := by
  have hfunctions : (m.changed k c).host.functions = m.host.functions := rfl
  have hbuiltin : (m.changed k c).host.builtin? name = m.host.builtin? name := rfl
  unfold Machine.callByName
  rw [hfunctions, hbuiltin]
  cases hf : m.host.functions.get? name with
  | some unit => exact enter_changed (m.push (.call f dest)) k c _ _ _ _
  | none =>
    rw [hb hf]
    exact h.raiseIn _

/-- An instruction that calls no builtin does the same where the unit agrees. -/
theorem Unseen.execute? (h : m.Unseen k c f) (hu : u.AgreesAt f.position u') {i : Instruction}
    (hat : m.host.units[f.unit]? = some u) (hi : u.instructions[f.position]? = some i)
    (hb : m.builtinCall? f = none) :
    Option.Rel (fun x y => y = x.changed k c) (m.execute? f u i)
      ((m.changed k c).execute? f u' i) := by
  have hparts : Parts (fun x y => y = x.changed k c) m (m.changed k c) f f u u' i := {
    symbol := by rw [hu.symbol?]
    children := hu.children
    goesOn := fun hs _ _ => by cases hs <;> rfl
    jumps := fun _ _ => rfl
    binds := fun _ _ _ => rfl
    calls := fun hop hn ha => by
      refine h.callByName i.dest _ fun hf => ?_
      rwa [builtinCall?_of_instruction hat hi hop hn ha hf, Option.map_eq_none_iff] at hb
    raises := fun _ => h.raiseIn _
    returns := fun _ _ => rfl
    halts := fun _ => rfl }
  exact hparts.execute?

/-- A step that calls no builtin is the same for a frame that does not see the change. -/
theorem fetch_changed (h : m.Unseen k c f) (hb : m.builtinCall? f = none) :
    (m.changed k c).fetch f = (m.fetch f).changed k c := by
  have hrel := h
  unfold Unseen at hrel
  unfold fetch
  cases hat : m.host.units[f.unit]? with
  | none =>
    rw [hat] at hrel
    generalize (m.changed k c).host.units[f.unit]? = u'? at hrel ⊢
    cases hrel
    rfl
  | some u =>
    rw [hat] at hrel
    generalize (m.changed k c).host.units[f.unit]? = u'? at hrel ⊢
    cases hrel with
    | @some _ u' hu =>
      dsimp only
      rw [hu.instruction]
      cases hi : u.instructions[f.position]? with
      | none => rfl
      | some i =>
        dsimp only
        have hrel := h.execute? hu hat hi hb
        generalize m.execute? f u i = x?, (m.changed k c).execute? f u' i = y? at hrel
        cases hrel with
        | none => rfl
        | some hx => exact hx

/-! ### Loads -/

namespace Avoids

variable {l : Load}

theorem enter (h : Avoids k m.host m.stack) {unit : Nat} (hunit : unit ≠ k) (scope : Scope)
    (args : List Value) (receiver : Value) :
    Changes k c (m.enter unit scope args receiver)
      ((m.changed k c).enter unit scope args receiver) := by
  rw [enter_changed]
  unfold Machine.enter
  split
  · exact .here h nofun
  · refine .here ⟨h.size, h.outermost, h.callers⟩ fun f hf => ?_
    cases hf
    exact hunit

theorem finishLoad (h : Avoids k m.host m.stack) (l : Load) :
    Changes k c (m.finishLoad l) ((m.changed k c).finishLoad l) := by
  rw [finishLoad_changed, finishLoad_eq]
  exact .here ⟨h.size, h.outermost, h.callers⟩ nofun

theorem failLoad (h : Avoids k m.host m.stack) (l : Load) (e : LoadError) :
    Changes k c (m.failLoad l e) ((m.changed k c).failLoad l e) := by
  rw [failLoad_changed, failLoad_eq]
  exact .here ⟨h.size, h.outermost, h.callers⟩ nofun

/-- The units of a stream come behind the unit that has been changed. -/
theorem loadStream (h : Avoids k m.host m.stack) (l : Load) (path attribution : String)
    (stream : Except Bytecode.StreamFault (List UInt8)) :
    Changes k c (m.loadStream l path attribution stream)
      ((m.changed k c).loadStream l path attribution stream) := by
  cases hr : Bytecode.readStream stream with
  | error e =>
    rw [loadStream_of_error m l hr, loadStream_of_error (m.changed k c) l hr]
    have hpending : Avoids k { m.host with pending := none } m.stack :=
      ⟨h.size, h.outermost, h.callers⟩
    exact Avoids.failLoad (m := { m with host := { m.host with pending := none } }) hpending l _
  | ok us =>
    rw [loadStream_of_ok m l hr, loadStream_of_ok (m.changed k c) l hr]
    have hlength : (m.changed k c).host.units.length = m.host.units.length :=
      List.length_modify c _ k
    generalize hentered : ({ m with
      host := ((m.host.pushArena (us.flatMap fun (u : CodeUnit) =>
        u.symbols.map Value.str)).restoreArena l.arenaMark).appendUnits
          (CodeUnit.placed attribution us) } : Machine).push (.load l) = x
    have hchanged : ({ m.changed k c with
        host := (((m.changed k c).host.pushArena (us.flatMap fun (u : CodeUnit) =>
          u.symbols.map Value.str)).restoreArena l.arenaMark).appendUnits
            (CodeUnit.placed attribution us) } : Machine).push (.load l) = x.changed k c := by
      have hhost := Host.appendUnits_modifyUnit ((m.host.pushArena (us.flatMap fun (u : CodeUnit) =>
        u.symbols.map Value.str)).restoreArena l.arenaMark) h.size c
          (CodeUnit.placed attribution us)
      rw [← hentered]
      exact congrArg (fun host => ({ m with host } : Machine).push (.load l)) hhost
    have havoids : Avoids k x.host x.stack := by
      rw [← hentered]
      exact ⟨Nat.lt_of_lt_of_le h.size (List.length_append ▸ Nat.le_add_right _ _), h.outermost,
        h.callers⟩
    rw [hlength, hchanged]
    exact havoids.enter (Nat.ne_of_gt h.size) .topLevel [] .main

theorem loadBytecode (h : Avoids k m.host m.stack) (l : Load) (path attribution : String) :
    Changes k c (m.loadBytecode l path attribution)
      ((m.changed k c).loadBytecode l path attribution) := by
  have hworld : (m.changed k c).world = m.world := rfl
  unfold Machine.loadBytecode
  rw [hworld]
  cases m.world.files.openEntry m.world.cwd path with
  | ok entry => exact h.loadStream l path attribution _
  | error e => exact h.failLoad l _

theorem loadCompiledUnits (h : Avoids k m.host m.stack) (l : Load) (path : String)
    (us : List CodeUnit) :
    Changes k c (m.loadCompiledUnits l path us) ((m.changed k c).loadCompiledUnits l path us) := by
  unfold Machine.loadCompiledUnits
  cases l.artifact with
  | none => exact h.failLoad l _
  | some a =>
    cases Bytecode.write? us with
    | none => exact h.failLoad l _
    | some bytes =>
      exact Avoids.loadStream (m := { m with world := m.world.writeArtifact a bytes }) h l a.path
        path _

/-- A compiler that runs what it compiles runs the same in both. -/
theorem compileAndLoad (h : Avoids k m.host m.stack) (l : Load) (path source : String) :
    Changes k c (m.compileAndLoad l path source)
      ((m.changed k c).compileAndLoad l path source) := by
  have hcompiler : (m.changed k c).host.compiler = m.host.compiler := rfl
  unfold Machine.compileAndLoad
  cases Assembly.assemble source path with
  | error e => exact h.failLoad l _
  | ok us =>
    dsimp only
    rw [hcompiler]
    split
    · rw [push_eq_above, push_eq_above, enterTopLevel_above, enterTopLevel_above]
      exact .below h
    · exact h.loadCompiledUnits l path us

theorem loadSource (h : Avoids k m.host m.stack) (l : Load) (path : String) :
    Changes k c (m.loadSource l path) ((m.changed k c).loadSource l path) := by
  have hworld : (m.changed k c).world = m.world := rfl
  have hconfig : (m.changed k c).host.config = m.host.config := rfl
  unfold Machine.loadSource
  rw [hworld, hconfig]
  cases m.world.readText path with
  | error e => exact h.failLoad l _
  | ok source =>
    dsimp only
    rcases m.world.createArtifact m.host.config with ⟨result, world⟩
    cases result with
    | error e => exact Avoids.failLoad (m := { m with world }) h l _
    | ok artifact => exact Avoids.compileAndLoad (m := { m with world }) h _ path source

theorem dispatch (h : Avoids k m.host m.stack) (l : Load) (path : String) :
    Changes k c (m.dispatch l path) ((m.changed k c).dispatch l path) := by
  unfold Machine.dispatch
  cases ModuleKind.ofPath path with
  | error reason => exact h.failLoad l _
  | ok kind =>
    cases kind with
    | compiled => exact h.loadBytecode l path path
    | source => exact h.loadSource l path
    | native => exact h.failLoad l _

theorem load (h : Avoids k m.host m.stack) (name : String) :
    Changes k c (m.load name) ((m.changed k c).load name) := by
  have hresolve : (m.changed k c).world.resolve (m.changed k c).host.searchPath name
      = m.world.resolve m.host.searchPath name := rfl
  unfold Machine.load
  rw [hresolve]
  cases m.world.resolve m.host.searchPath name with
  | error e => exact .here h nofun
  | ok path => exact h.dispatch _ path

theorem require (h : Avoids k m.host m.stack) (name : String) :
    Changes k c (m.require name) ((m.changed k c).require name) := by
  have hresolve : (m.changed k c).world.resolve (m.changed k c).host.searchPath name
      = m.world.resolve m.host.searchPath name := rfl
  have hledger : (m.changed k c).host.ledger = m.host.ledger := rfl
  unfold Machine.require
  rw [hresolve, hledger]
  cases m.world.resolve m.host.searchPath name with
  | error e => exact .here h nofun
  | ok path =>
    dsimp only
    cases m.host.ledger.begin? path with
    | none => exact .here h nofun
    | some ledger =>
      exact Avoids.dispatch (m := m.mapLedger fun _ => ledger) ⟨h.size, h.outermost, h.callers⟩ _
        path

/-! ### Instructions -/

theorem withName (h : Avoids k m.host m.stack) (args : List Value) {run run' : String → Machine}
    (hr : ∀ name, Changes k c (run name) (run' name)) :
    Changes k c (m.withName args run) ((m.changed k c).withName args run') := by
  unfold Machine.withName
  cases nameArgument args with
  | ok name => exact hr name
  | error e => exact .here h nofun

theorem callBuiltin (h : Avoids k m.host m.stack) (b : Builtin) (args : List Value) :
    Changes k c (m.callBuiltin b args) ((m.changed k c).callBuiltin b args) := by
  have hother : ∀ host value, host.units = m.host.units →
      Changes k c { m with host, control := .returning value }
        { m with host := host.modifyUnit k c, control := .returning value } :=
    fun host value hunits => .here ⟨hunits ▸ h.size, h.outermost, h.callers⟩ nofun
  cases b with
  | print => exact hother _ _ rfl
  | load => exact h.withName args h.load
  | require => exact h.withName args h.require
  | addLoadPath => exact h.withName args fun dir => hother _ _ rfl

theorem push (h : Avoids k m.host m.stack) (hf : f.unit ≠ k) (dest : UInt8) :
    Avoids k (m.push (.call f dest)).host (m.push (.call f dest)).stack where
  size := h.size
  outermost := h.outermost
  callers f' hf' := (List.mem_cons.1 hf').elim (fun heq => heq ▸ hf) (h.callers f')

/-- A frame of another unit takes the same step, and no frame of the unit is entered. -/
theorem fetch (h : Avoids k m.host m.stack) (hf : f.unit ≠ k)
    (hfree : ∀ name, m.host.functions.get? name ≠ some k) :
    Changes k c (m.fetch f) ((m.changed k c).fetch f) := by
  cases hb : m.builtinCall? f with
  | some call =>
    obtain ⟨dest, b, args⟩ := call
    have hb' := (unseen_of_ne (c := c) hf).builtinCall?.trans hb
    rw [fetch_of_builtinCall? hb, fetch_of_builtinCall? hb']
    exact (h.push hf dest).callBuiltin b args
  | none =>
    rw [fetch_changed (unseen_of_ne hf) hb]
    generalize m.fetch f = m', fetch_executed hb = he
    cases he with
    | goesOn _ heffect hunit =>
      have havoids : ∀ {host : Host}, host.units = m.host.units → Avoids k host m.stack :=
        fun hunits => ⟨hunits ▸ h.size, h.outermost, h.callers⟩
      refine .here ?_ fun f' hf' => ?_
      · cases heffect <;> exact havoids rfl
      · cases hf'
        exact hunit ▸ hf
    | calls dest args hfunction =>
      rw [← enter_changed]
      refine (h.push hf dest).enter (fun heq => ?_) _ args _
      exact hfree _ (heq ▸ hfunction)
    | returns | halts | raises | lost | stuck =>
      exact .here ⟨h.size, h.outermost, h.callers⟩ nofun

end Avoids

/-! ### Steps -/

theorem Changes.control (h : Changes k c m m') : m'.control = m.control := by
  cases h <;> rfl

theorem Changes.isDone (h : Changes k c m m') : m'.isDone = m.isDone := by
  cases h with
  | here => rfl
  | below =>
    rename_i y p rest _
    obtain ⟨host, world, control, stack⟩ := y
    cases control <;> cases stack <;> rfl

theorem step_of_stuck {m : Machine} {below : List Activation} (hc : m.control = .stuck) :
    (m.above below).step = m.above below := by
  rw [Machine.step, above_control, hc]

/-- Where neither machine has anything left to do, nothing is being compiled. -/
theorem Changes.eq_changed (h : Changes k c m m') (hdone : m.isDone = true)
    (hstuck : m.control ≠ .stuck) : m.stack = [] ∧ m' = m.changed k c := by
  have hstack : m.stack = [] := by
    obtain ⟨host, world, control, stack⟩ := m
    cases control with
    | running f => cases hdone
    | stuck => exact absurd rfl hstuck
    | returning | raising | failing => exact List.isEmpty_iff.1 hdone
  cases h with
  | here => exact ⟨hstack, rfl⟩
  | below => exact absurd hstack (stack_above_ne_nil _ _ _)

/-- What is being compiled has come to its end. -/
theorem Avoids.step_compilation {y : Machine} {p : Compilation} {rest : List Activation}
    (h : Avoids k p.outer rest) (hdone : y.isDone = true) :
    Changes k c (y.above (.compilation p :: rest)).step
      (y.above (.compilation { p with outer := p.outer.modifyUnit k c } :: rest)).step := by
  obtain ⟨host, world, control, stack⟩ := y
  cases control with
  | running f => cases hdone
  | stuck => exact .below (y := ⟨host, world, .stuck, stack⟩) h
  | returning value =>
    obtain rfl : stack = [] := List.isEmpty_iff.1 hdone
    exact Avoids.loadCompiledUnits (m := ⟨p.outer, world, .returning value, rest⟩) h p.load p.path
      host.units
  | raising e | failing e =>
    obtain rfl : stack = [] := List.isEmpty_iff.1 hdone
    exact Avoids.failLoad (m := ⟨p.outer, world, _, rest⟩) h p.load _

/-- A frame of another unit goes on, or returns because the host has halted. -/
theorem Avoids.resume (h : Avoids k m.host m.stack) (hf : f.unit ≠ k) (dest : UInt8)
    (value : Value) : Changes k c (m.resume f dest value) ((m.changed k c).resume f dest value) := by
  rw [resume_changed]
  unfold Machine.resume assign? Frame.write?
  split
  · exact .here ⟨h.size, h.outermost, h.callers⟩ nofun
  · split
    · refine .here h fun f' hf' => ?_
      cases hf'
      exact hf
    · exact .here h nofun

theorem Avoids.raiseIn (h : Avoids k m.host m.stack) (hf : f.unit ≠ k) (e : Exception) :
    Changes k c (m.raiseIn f e) ((m.changed k c).raiseIn f e) := by
  rw [(unseen_of_ne hf).raiseIn]
  exact .here ⟨h.size, h.outermost, h.callers⟩ nofun

/-- A result reaches what waits. -/
theorem Avoids.step_waiting {a : Activation} {stack : List Activation} (h : Avoids k m.host m.stack)
    (hstack : m.stack = a :: stack) (hc : ∀ f, m.control ≠ .running f) :
    Changes k c m.step (m.changed k c).step := by
  obtain ⟨host, world, control, _⟩ := m
  obtain rfl : _ = a :: stack := hstack
  cases a with
  | compilation p => exact h.outermost.elim
  | load l =>
    have hrest : Avoids k host stack := ⟨h.size, h.outermost, h.callers⟩
    cases control with
    | running f => exact absurd rfl (hc f)
    | stuck => exact .here h nofun
    | returning value => exact Avoids.finishLoad (m := ⟨host, world, _, stack⟩) hrest l
    | raising e | failing e => exact Avoids.failLoad (m := ⟨host, world, _, stack⟩) hrest l _
  | call f dest =>
    have hf : f.unit ≠ k := h.callers f List.mem_cons_self
    have hrest : Avoids k host stack :=
      ⟨h.size, h.outermost, fun f' hf' => h.callers f' (List.mem_cons_of_mem _ hf')⟩
    cases control with
    | running f => exact absurd rfl (hc f)
    | stuck => exact .here h nofun
    | returning value => exact Avoids.resume (m := ⟨host, world, _, stack⟩) hrest hf dest value
    | raising e | failing e => exact Avoids.raiseIn (m := ⟨host, world, _, stack⟩) hrest hf _

/-- The machines go on side by side as long as no function is bound to the unit. -/
theorem Changes.step (h : Changes k c m m')
    (hfree : ∀ name, m.loader.functions.get? name ≠ some k) : Changes k c m.step m'.step := by
  cases hdone : m.isDone with
  | true => rwa [step_of_isDone hdone, step_of_isDone (h.isDone.trans hdone)]
  | false =>
    cases h with
    | @here m havoids hc =>
      by_cases hrunning : ∃ f, m.control = .running f
      · obtain ⟨f, hf⟩ := hrunning
        have hf' : (m.changed k c).control = .running f := hf
        rw [step_of_running hf, step_of_running hf']
        refine havoids.fetch (hc f hf) fun name => ?_
        rw [← loaderOf_of_outermost m.host havoids.outermost]
        exact hfree name
      · cases hstack : m.stack with
        | nil =>
          rw [isDone_of_not_running hstack (not_exists.1 hrunning)] at hdone
          cases hdone
        | cons a stack => exact havoids.step_waiting hstack (not_exists.1 hrunning)
    | @below y p rest havoids =>
      cases hy : y.isDone with
      | false =>
        rw [step_above y _ hy, step_above y _ hy]
        exact .below havoids
      | true => exact havoids.step_compilation hy

end Machine

end ModuleHost
