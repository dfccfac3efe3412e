import ModuleHost.Proofs.Machine.Artifacts

/-!
# Code in a host of its own

A compiler that runs what it compiles does so in a host that can print and do nothing else.  Code
that runs there loads nothing, so neither the table of units nor the world changes under it, and
nothing but its own frames waits (`Isolated.step`).  The host that waits finds the units as they
were compiled.
-/

namespace ModuleHost.Machine

/-- The machine runs the units `us` in a host of its own, in the world `w`. -/
structure Isolated (us : List CodeUnit) (w : World) (m : Machine) : Prop where
  builtins : m.host.builtins = [.print]
  units : m.host.units = us
  world : m.world = w
  calls : ∀ a ∈ m.stack, ∃ f dest, a = .call f dest

namespace Isolated

variable {us : List CodeUnit} {w : World} {m m' : Machine} {f : Frame}

/-- A step that at most puts a frame on the stack. -/
theorem keep (h : m.Isolated us w) (hbuiltins : m'.host.builtins = m.host.builtins)
    (hunits : m'.host.units = m.host.units) (hworld : m'.world = m.world)
    (hstack : ∀ a ∈ m'.stack, a ∈ m.stack ∨ ∃ f dest, a = .call f dest) : m'.Isolated us w where
  builtins := hbuiltins.trans h.builtins
  units := hunits.trans h.units
  world := hworld.trans h.world
  calls a ha := (hstack a ha).elim (h.calls a) id

theorem enter (h : m.Isolated us w) (unit : Nat) (scope : Scope) (args : List Value)
    (receiver : Value) : (m.enter unit scope args receiver).Isolated us w := by
  unfold Machine.enter
  split <;> exact h.keep rfl rfl rfl fun _ ha => Or.inl ha

theorem push_call (h : m.Isolated us w) (f : Frame) (dest : UInt8) :
    (m.push (.call f dest)).Isolated us w :=
  h.keep rfl rfl rfl fun _ ha =>
    (List.mem_cons.1 ha).elim (fun heq => Or.inr ⟨f, dest, heq⟩) Or.inl

/-- The only builtin that is called prints. -/
theorem eq_print (h : m.Isolated us w) {dest : UInt8} {b : Builtin} {args : List Value}
    (hb : m.builtinCall? f = some (dest, b, args)) : b = .print := by
  have hmem := mem_builtins_of_builtinCall? hb
  rw [h.builtins] at hmem
  exact List.mem_singleton.1 hmem

theorem not_resolves (h : m.Isolated us w) (name : String) : ¬ m.Resolves name := by
  rintro ⟨f, dest, b, -, hb, hloads⟩
  rw [h.eq_print hb] at hloads
  exact hloads.elim nofun nofun

theorem fetch (h : m.Isolated us w) (f : Frame) : (m.fetch f).Isolated us w := by
  cases hb : m.builtinCall? f with
  | some call =>
    obtain ⟨dest, b, args⟩ := call
    rw [fetch_of_builtinCall? hb, h.eq_print hb]
    exact (h.push_call f dest).keep rfl rfl rfl fun _ ha => Or.inl ha
  | none =>
    have hstay : ∀ a ∈ m.stack, a ∈ m.stack ∨ ∃ f dest, a = .call f dest := fun _ ha => Or.inl ha
    generalize m.fetch f = m', fetch_executed hb = he
    cases he with
    | goesOn _ heffect => cases heffect <;> exact h.keep rfl rfl rfl hstay
    | calls dest args => exact (h.push_call f dest).enter _ _ _ _
    | returns | halts | raises | lost | stuck => exact h.keep rfl rfl rfl hstay

theorem pop (h : m.Isolated us w) {a : Activation} {stack : List Activation}
    (hstack : m.stack = a :: stack) : Isolated us w { m with stack } :=
  h.keep rfl rfl rfl fun _ ha => Or.inl (hstack ▸ List.mem_cons_of_mem a ha)

theorem returnTo (h : m.Isolated us w) {a : Activation} {stack : List Activation}
    (hstack : m.stack = a :: stack) (value : Value) :
    ({ m with stack }.returnTo value a).Isolated us w := by
  have hpop := h.pop hstack
  obtain ⟨f, dest, rfl⟩ := h.calls a (hstack ▸ List.mem_cons_self)
  show ({ m with stack }.resume f dest value).Isolated us w
  unfold resume assign?
  split
  · exact hpop.keep rfl rfl rfl fun _ ha => Or.inl ha
  · cases f.write? dest value with
    | none => exact hpop.keep rfl rfl rfl fun _ ha => Or.inl ha
    | some f' => exact hpop.keep rfl rfl rfl fun _ ha => Or.inl ha

theorem raiseTo (h : m.Isolated us w) {a : Activation} {stack : List Activation}
    (hstack : m.stack = a :: stack) (e : Exception) :
    ({ m with stack }.raiseTo e a).Isolated us w := by
  have hpop := h.pop hstack
  obtain ⟨f, dest, rfl⟩ := h.calls a (hstack ▸ List.mem_cons_self)
  exact hpop.keep rfl rfl rfl fun _ ha => Or.inl ha

/-- Code in a host of its own stays there. -/
theorem step (h : m.Isolated us w) : m.step.Isolated us w := by
  obtain ⟨host, world, control, stack⟩ := m
  cases control with
  | running f => exact h.fetch f
  | stuck => exact h
  | returning value =>
    cases stack with
    | nil => exact h
    | cons a stack => exact h.returnTo rfl value
  | raising e =>
    cases stack with
    | nil => exact h
    | cons a stack => exact h.raiseTo rfl e
  | failing e =>
    cases stack with
    | nil => exact h
    | cons a stack => exact h.raiseTo rfl e.toException

theorem run (h : m.Isolated us w) (n : Nat) : (m.run n).Isolated us w :=
  run_induction (P := Isolated us w) (fun _ h => h.step) h n

end Isolated

theorem isolated_idle (h : Host) (w : World) (us : List CodeUnit) :
    (idle (h.isolated.appendUnits us) w).Isolated us w := ⟨rfl, rfl, rfl, nofun⟩

/-! ### The host that waits -/

section

variable {m z : Machine} {us : List CodeUnit}

/-- Units are read in the same way whatever has happened before. -/
theorem loadStream_congr (m : Machine) (control : Control) (l : Load) (path attribution : String)
    (stream : Except Bytecode.StreamFault (List UInt8)) :
    ({ m with control } : Machine).loadStream l path attribution stream
      = m.loadStream l path attribution stream := by
  have henter : ∀ (x : Machine) (root : Nat),
      ({ x with control } : Machine).enterTopLevel root = x.enterTopLevel root := by
    intro x root
    unfold enterTopLevel enter
    split <;> rfl
  cases hr : Bytecode.readStream stream with
  | ok units =>
    rw [loadStream_of_ok _ _ hr, loadStream_of_ok _ _ hr]
    exact henter ({ m with
      host := ((m.host.pushArena (units.flatMap fun (u : CodeUnit) =>
        u.symbols.map Value.str)).restoreArena l.arenaMark).appendUnits
          (CodeUnit.placed attribution units) }.push (.load l)) m.host.units.length
  | error e =>
    rw [loadStream_of_error _ _ hr, loadStream_of_error _ _ hr, failLoad_eq, failLoad_eq]

theorem loadCompiledUnits_congr (m : Machine) (control : Control) (l : Load) (path : String)
    (us : List CodeUnit) :
    ({ m with control } : Machine).loadCompiledUnits l path us = m.loadCompiledUnits l path us := by
  unfold loadCompiledUnits
  cases l.artifact with
  | none => rw [failLoad_eq, failLoad_eq]
  | some a =>
    cases Bytecode.write? us with
    | none => rw [failLoad_eq, failLoad_eq]
    | some bytes =>
      exact loadStream_congr { m with world := m.world.writeArtifact a bytes } control l a.path path _

/-- When the code of a compilation has returned, the units are loaded. -/
theorem step_compiled (hz : z.Isolated us m.world) (hdone : z.isDone = true) {value : Value}
    (hvalue : z.control = .returning value) (l : Load) (path : String) :
    (z.above (.compilation { load := l, path, outer := m.host } :: m.stack)).step
      = m.loadCompiledUnits l path us := by
  obtain ⟨host, world, control, stack⟩ := z
  obtain ⟨-, rfl, rfl, -⟩ := hz
  obtain rfl : control = .returning value := hvalue
  obtain rfl : stack = [] := List.isEmpty_iff.1 hdone
  exact loadCompiledUnits_congr m (.returning value) l path host.units

/-- When it has raised an exception, the load fails. -/
theorem step_uncompiled (hz : z.Isolated us m.world) (hdone : z.isDone = true) {e : Exception}
    (he : z.value? = some (.error e)) (l : Load) (path : String) :
    (z.above (.compilation { load := l, path, outer := m.host } :: m.stack)).step
      = m.failLoad l (.uncompiled path e.text) := by
  obtain ⟨host, world, control, stack⟩ := z
  obtain ⟨-, -, rfl, -⟩ := hz
  rw [failLoad_eq]
  cases control with
  | running f => cases hdone
  | returning value => cases he
  | stuck => cases he
  | raising e' | failing e' =>
    obtain rfl : stack = [] := List.isEmpty_iff.1 hdone
    cases he
    exact failLoad_eq _ l _

end

end ModuleHost.Machine
