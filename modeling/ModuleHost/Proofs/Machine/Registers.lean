import ModuleHost.Proofs.Bytecode.SpareBits
import ModuleHost.Proofs.Machine.LoadedSources
import ModuleHost.Proofs.Machine.Soundness

/-!
# Registers that exist

A machine is stuck when an instruction names a register that does not exist, and nothing else makes
it so.  Units that are read from a stream or assembled from a source name registers that exist,
whatever else is in them.  So a machine that gets stuck has run an instruction of a unit that was
put into the table in another way: if that is not so, what it waits for is `Vetted` with every step
(`Vetted.step`), and it never gets stuck (`vetted_run`).
-/

namespace ModuleHost

def CodeUnit.RegistersValid (u : CodeUnit) : Prop := ∀ i ∈ u.instructions, i.RegistersValid

/-- Apart from the units `old`, the units of the host name registers that exist. -/
def Host.Vetted (old : List CodeUnit) (h : Host) : Prop := ∀ u ∈ h.units, u ∈ old ∨ u.RegistersValid

def Activation.Vetted (old : List CodeUnit) : Activation → Prop
  | .call _ dest => dest < 32
  | .load _ => True
  | .compilation c => c.outer.Vetted old

/-- The machine is not stuck, and what waits in it can take up its result. -/
structure Machine.Vetted (old : List CodeUnit) (m : Machine) : Prop where
  host : m.host.Vetted old
  stack : ∀ a ∈ m.stack, a.Vetted old
  control : m.control ≠ .stuck

/-- The next instruction stands in one of the units `old` and names a register that does not exist.
-/
def Machine.Errs (old : List CodeUnit) (m : Machine) : Prop :=
  ∃ f u i, m.control = .running f ∧ m.host.units[f.unit]? = some u ∧ u ∈ old
    ∧ u.instructions[f.position]? = some i ∧ ¬ i.RegistersValid

variable {old us : List CodeUnit} {h h' : Host} {m m' : Machine} {l : Load}

/-! ### Units -/

theorem CodeUnit.registersValid_of_read {bytes : List UInt8} (hr : Bytecode.read bytes = .ok us) :
    ∀ u ∈ us, u.RegistersValid := fun u hu => (Bytecode.isNormal_of_read hr u hu).registers

theorem CodeUnit.registersValid_placed (hus : ∀ u ∈ us, u.RegistersValid) (attribution : String) :
    ∀ u ∈ CodeUnit.placed attribution us, u.RegistersValid := by
  have hzero : (0 : UInt8) < 32 := by decide
  have hnamed : ∀ u ∈ us.map fun u => { u with filename := some attribution },
      u.RegistersValid := by
    intro u hu
    obtain ⟨v, hv, rfl⟩ := List.mem_map.1 hu
    exact hus v hv
  rw [placed]
  generalize us.map _ = vs at hnamed
  cases vs with
  | nil => exact List.forall_mem_nil _
  | cons v vs =>
    obtain ⟨hv, hvs⟩ := List.forall_mem_cons.1 hnamed
    refine List.forall_mem_cons.2 ⟨fun i hi => ?_, hvs⟩
    rcases mem_finalize hi with hi | rfl | rfl
    · exact hv i hi
    · exact ⟨hzero, hzero, hzero⟩
    · exact ⟨hzero, hzero, hzero⟩

theorem Host.Vetted.of_units (hv : h.Vetted old) (hunits : h'.units = h.units) : h'.Vetted old := by
  rw [Vetted, hunits]
  exact hv

theorem Host.Vetted.appendUnits (hv : h.Vetted old) (hus : ∀ u ∈ us, u.RegistersValid) :
    (h.appendUnits us).Vetted old := by
  intro u hu
  rcases List.mem_append.1 hu with hu | hu
  · exact hv u hu
  · exact Or.inr (hus u hu)

namespace Machine

/-! ### Loads -/

theorem vetted_enter (hh : m.host.Vetted old) (hs : ∀ a ∈ m.stack, a.Vetted old) (unit : Nat)
    (scope : Scope) (args : List Value) (receiver : Value) :
    (m.enter unit scope args receiver).Vetted old := by
  unfold enter
  split
  · exact ⟨hh, hs, nofun⟩
  · exact ⟨hh.of_units rfl, hs, nofun⟩

theorem vetted_finishLoad (hh : m.host.Vetted old) (hs : ∀ a ∈ m.stack, a.Vetted old) (l : Load) :
    (m.finishLoad l).Vetted old := by
  rw [finishLoad_eq]
  exact ⟨hh.of_units rfl, hs, nofun⟩

theorem vetted_failLoad (hh : m.host.Vetted old) (hs : ∀ a ∈ m.stack, a.Vetted old) (l : Load)
    (e : LoadError) : (m.failLoad l e).Vetted old := by
  rw [failLoad_eq]
  exact ⟨hh.of_units rfl, hs, nofun⟩

theorem Streamed.vetted (hd : Streamed m l m') (hh : m.host.Vetted old)
    (hs : ∀ a ∈ m.stack, a.Vetted old) : m'.Vetted old := by
  cases hd with
  | @failed pending e he =>
    exact vetted_failLoad (m := { m with host := { m.host with pending } }) (hh.of_units rfl) hs l e
  | @entered world bytes units attribution arena hw hr ha =>
    have hhost : Host.Vetted old { m.host with arena } := hh.of_units rfl
    refine vetted_enter (hhost.appendUnits ?_) ?_ _ _ _ _
    · exact CodeUnit.registersValid_placed (CodeUnit.registersValid_of_read hr) attribution
    · exact List.forall_mem_cons.2 ⟨trivial, hs⟩

theorem Dispatched.vetted (hd : Dispatched m l m') (hh : m.host.Vetted old)
    (hs : ∀ a ∈ m.stack, a.Vetted old) : m'.Vetted old := by
  cases hd with
  | @failed m₁ l₁ e hp he =>
    rw [← hp.host] at hh
    rw [← hp.stack] at hs
    exact vetted_failLoad hh hs l₁ e
  | @streamed m₁ m₂ l₁ hp hstream =>
    rw [← hp.host] at hh
    rw [← hp.stack] at hs
    exact hstream.vetted hh hs
  | @compiles m₁ l₁ path units hp hc hu =>
    obtain ⟨source, hu⟩ := hu
    have hisolated : m.host.isolated.Vetted old := nofun
    refine vetted_enter (hisolated.appendUnits (registersValid_of_assemble hu)) ?_ _ _ _ _
    exact List.forall_mem_cons.2 ⟨hh, hp.stack ▸ hs⟩

/-! ### Steps -/

theorem vetted_callBuiltin (hh : m.host.Vetted old) (hs : ∀ a ∈ m.stack, a.Vetted old) (b : Builtin)
    (args : List Value) : (m.callBuiltin b args).Vetted old := by
  generalize m.callBuiltin b args = m', callBuiltin_cases m b args = hc
  cases hc with
  | prints | adds => exact ⟨hh.of_units rfl, hs, nofun⟩
  | refuses | unresolved | known => exact ⟨hh, hs, nofun⟩
  | loads => exact (dispatch_cases m _ _).vetted hh hs
  | requires => exact (dispatch_cases _ _ _).vetted (hh.of_units rfl) hs

theorem Effect.units_eq {f : Frame} {u : CodeUnit} (he : Effect f u h h') : h'.units = h.units := by
  cases he <;> rfl

theorem Executed.vetted {f : Frame} (he : Executed m f m') (hm : m.Vetted old)
    (hvalid : ∀ i, m.host.instruction? f = some i → i.RegistersValid) : m'.Vetted old := by
  cases he with
  | goesOn hu heffect => exact ⟨hm.host.of_units heffect.units_eq, hm.stack, nofun⟩
  | returns | halts | raises | lost => exact ⟨hm.host.of_units rfl, hm.stack, nofun⟩
  | calls dest args hf hdest =>
    obtain ⟨i, hi, rfl⟩ := hdest
    have hcall : (Activation.call f i.dest).Vetted old := (hvalid i hi).1
    exact vetted_enter (m := m.push (.call f i.dest)) hm.host
      (List.forall_mem_cons.2 ⟨hcall, hm.stack⟩) _ _ _ _
  | stuck hi =>
    obtain ⟨i, hi, hnot⟩ := hi
    exact absurd (hvalid i hi) hnot

/-- Where no unit of `old` errs, a running frame executes an instruction whose registers exist. -/
theorem Vetted.registersValid {f : Frame} (hm : m.Vetted old) (hc : m.control = .running f)
    (herrs : ¬ m.Errs old) {i : Instruction} (hi : m.host.instruction? f = some i) :
    i.RegistersValid := by
  obtain ⟨u, hu, hi⟩ := Host.instruction?_eq_some_iff.1 hi
  rcases hm.host u (List.mem_of_getElem? hu) with hold | hvalid
  · by_contra hnot
    exact herrs ⟨f, u, i, hc, hu, hold, hi, hnot⟩
  · exact hvalid i (List.mem_of_getElem? hi)

theorem Vetted.fetch {f : Frame} (hm : m.Vetted old)
    (hvalid : ∀ i, m.host.instruction? f = some i → i.RegistersValid) :
    (m.fetch f).Vetted old := by
  cases hb : m.builtinCall? f with
  | none => exact (fetch_executed hb).vetted hm hvalid
  | some call =>
    obtain ⟨dest, b, args⟩ := call
    obtain ⟨u, i, -, hu, hi, -, rfl, -⟩ := instruction_of_builtinCall? hb
    rw [fetch_of_builtinCall? hb]
    have hcall : (Activation.call f i.dest).Vetted old :=
      (hvalid i (Host.instruction?_eq_some_iff.2 ⟨u, hu, hi⟩)).1
    exact vetted_callBuiltin (m := m.push (.call f i.dest)) hm.host
      (List.forall_mem_cons.2 ⟨hcall, hm.stack⟩) b args

theorem vetted_returnTo (hh : m.host.Vetted old) (hs : ∀ a ∈ m.stack, a.Vetted old) {a : Activation}
    (ha : a.Vetted old) (value : Value) : (m.returnTo value a).Vetted old := by
  cases a with
  | load l => exact vetted_finishLoad hh hs l
  | compilation c =>
    exact (loadCompiledUnits_cases { m with host := c.outer } c.load c.path _).vetted ha hs
  | call f dest =>
    obtain ⟨f', hf'⟩ := f.exists_write? ha value
    rw [returnTo, resume, assign?, hf']
    split
    · exact ⟨hh.of_units rfl, hs, by simp [returnFrom]⟩
    · exact ⟨hh, hs, by simp [continueWith]⟩

theorem vetted_raiseTo (hh : m.host.Vetted old) (hs : ∀ a ∈ m.stack, a.Vetted old) {a : Activation}
    (ha : a.Vetted old) (e : Exception) : (m.raiseTo e a).Vetted old := by
  cases a with
  | call f dest => exact ⟨hh.of_units rfl, hs, nofun⟩
  | load l => exact vetted_failLoad hh hs l _
  | compilation c => exact vetted_failLoad (m := { m with host := c.outer }) ha hs c.load _

/-- A step does not get the machine stuck, unless a unit of `old` errs. -/
theorem Vetted.step (hm : m.Vetted old) (herrs : ¬ m.Errs old) : m.step.Vetted old := by
  generalize m.step = m', stepped m = hstep
  cases hstep with
  | fetches hc => exact hm.fetch fun i => hm.registersValid hc herrs
  | stays => exact hm
  | @returns value a stack hc hstack =>
    obtain ⟨ha, hs⟩ := List.forall_mem_cons.1 (hstack ▸ hm.stack)
    exact vetted_returnTo (m := { m with stack }) hm.host hs ha value
  | @raises e a stack he hstack =>
    obtain ⟨ha, hs⟩ := List.forall_mem_cons.1 (hstack ▸ hm.stack)
    exact vetted_raiseTo (m := { m with stack }) hm.host hs ha e

/-- However long the machine runs, it is not stuck, unless a unit of `old` has erred. -/
theorem vetted_run (hm : m.Vetted old) (n : Nat) :
    (∃ k < n, (m.run k).Errs old) ∨ (m.run n).Vetted old := by
  induction n with
  | zero => exact Or.inr hm
  | succ n ih =>
    rcases ih with ⟨k, hk, herrs⟩ | hvetted
    · exact Or.inl ⟨k, Nat.lt_succ_of_lt hk, herrs⟩
    · by_cases herrs : (m.run n).Errs old
      · exact Or.inl ⟨n, Nat.lt_succ_self n, herrs⟩
      · rw [run_succ']
        exact Or.inr (hvetted.step herrs)

end Machine

end ModuleHost
