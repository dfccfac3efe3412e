import ModuleHost.Proofs.Machine.Nesting

/-!
# Where an exception comes up

An exception comes up in one step: before it nothing is raised, and after it nothing is left but to
take down what waits.  `Arises` says what has to be known of this step: which frames have an entry
in the backtrace in the end, and how many there are when the exception is about the depth.  Every
step that lets an exception come up is of this kind (`Nested.arises`).
-/

namespace ModuleHost.Machine

def Quiet (m : Machine) : Prop := ∀ e, m.value? ≠ some (.error e)

/-- How the exception `e` comes up between `m` and `m'`.  Together with the entries of the frames
that wait then, its backtrace has the entries of the frames that were executing an instruction. -/
inductive Arises (limit : Nat) (m m' : Machine) (e : Exception) : Prop
  /-- It is new, and if it says that too many frames are active, then `limit` frames are. -/
  | created (hentries : e.backtrace ++ entries m'.host.units (callers m'.stack)
        = entries m.host.units m.executing)
      (hlimit : e.IsOverflow → m.executing.length = limit)
  /-- It was pending, and has the entries that it had then before them. -/
  | taken (hpending : m.host.pending = some e) (hnone : m'.host.pending = none)
      (hentries : entries m'.host.units (callers m'.stack) = entries m.host.units m.executing)

variable {first : Host} {m m' : Machine} {f : Frame} {dest : UInt8} {e : Exception}

/-- Units that are put behind the others do not change the entries of frames that execute an
instruction. -/
theorem entries_of_isPrefix {h h' : Host} (hu : h.units <+: h'.units) {frames : List Frame}
    (hf : ∀ f ∈ frames, (h.instruction? f).isSome = true) :
    entries h'.units frames = entries h.units frames := by
  refine List.map_congr_left fun f hmem => ?_
  obtain ⟨i, hi⟩ := Option.isSome_iff_exists.1 (hf f hmem)
  exact Frame.location_of_isPrefix hu hi

theorem executing_of_waiting (hc : m.control = .running f)
    (hw : ∀ f ∈ callers m.stack, (m.host.instruction? f).isSome = true) :
    m.executing = if (m.host.instruction? f).isSome then f :: callers m.stack
      else callers m.stack := by
  rw [executing, active, hc]
  dsimp only
  rw [List.filter_cons, List.filter_eq_self.2 hw]

/-! ### Frames that are refused -/

theorem units_enter (m : Machine) (unit : Nat) (scope : Scope) (args : List Value)
    (receiver : Value) : (m.enter unit scope args receiver).host.units = m.host.units := by
  unfold enter
  split <;> rfl

/-- Entering a frame raises nothing but that too many are active. -/
theorem eq_stackOverflow_of_enter {unit : Nat} {scope : Scope} {args : List Value}
    {receiver : Value} (he : (m.enter unit scope args receiver).value? = some (.error e)) :
    e = .stackOverflow ∧ Host.maxDepth ≤ m.host.depth
      ∧ (m.enter unit scope args receiver).control = .raising e := by
  unfold enter at he ⊢
  split at he
  · rename_i hfull
    cases he
    exact ⟨rfl, hfull, by rw [if_pos hfull]⟩
  · cases he

/-- A frame is refused by `x`, which has gone on from `m` without taking a frame down. -/
theorem arises_enter {x : Machine} {unit : Nat} {scope : Scope} {args : List Value}
    {receiver : Value} (hn : first.Nests x.host x.stack 0)
    (hexecuting : m.executing = callers x.stack)
    (hentries : entries x.host.units (callers x.stack) = entries m.host.units (callers x.stack))
    (he : (x.enter unit scope args receiver).value? = some (.error e)) :
    Arises (Host.maxDepth - first.depth) m (x.enter unit scope args receiver) e := by
  obtain ⟨rfl, hfull, -⟩ := eq_stackOverflow_of_enter he
  refine .created ?_ fun _ => ?_
  · rw [units_enter, stack_enter, hexecuting]
    exact hentries
  · have hdepth := hn.depth
    have hle := hn.le
    rw [hexecuting]
    omega

/-! ### Frames that run -/

/-- The call of a builtin lets an exception come up. -/
theorem Answered.arises (ha : Answered (m.push (.call f dest)) m')
    (hn : first.Nests m.host (.call f dest :: m.stack) 0)
    (hexecuting : m.executing = callers (.call f dest :: m.stack))
    (he : m'.value? = some (.error e)) : Arises (Host.maxDepth - first.depth) m m' e := by
  have hplain : ∀ {m' : Machine}, e.IsPlain → m'.host.units = m.host.units →
      m'.stack = .call f dest :: m.stack → Arises (Host.maxDepth - first.depth) m m' e := by
    intro m' hp hunits hstack
    refine .created ?_ fun ho => absurd ho hp.not_isOverflow
    rw [hp.backtrace, hunits, hstack, hexecuting]
    rfl
  cases ha with
  | returns value => cases he
  | raises hp =>
    cases he
    exact hplain hp rfl rfl
  | loads hb =>
    cases hb with
    | failed hp hcause =>
      cases he
      rcases hcause with hcause | ⟨hpending, hnone⟩
      · exact hplain hcause rfl rfl
      · refine .taken hpending hnone ?_
        rw [hexecuting]
        rfl
    | @entered units arena ledger world l =>
      have hhost : first.Nests ({ m.host with arena, ledger }.appendUnits units)
          (.call f dest :: m.stack) 0 :=
        hn.keep rfl (List.prefix_append _ _) rfl (Or.inl rfl)
      have hprefix : m.host.units <+: (m.host.appendUnits units).units := List.prefix_append _ _
      have hentries := entries_of_isPrefix hprefix hn.waiting
      unfold enterTopLevel at he ⊢
      exact arises_enter hhost.push_load hexecuting hentries he

/-- An instruction that calls nothing lets an exception come up. -/
theorem Executed.arises (hx : Executed m f m') (ho : Ordinary m m') {limit : Nat}
    (hi : (m.host.instruction? f).isSome = true) (hexecuting : m.executing = f :: callers m.stack)
    (he : m'.value? = some (.error e)) : Arises limit m m' e := by
  cases hx with
  | goesOn | returns | halts | stuck => cases he
  | calls dest args hf =>
    obtain ⟨rfl, -, hcontrol⟩ := eq_stackOverflow_of_enter he
    exact absurd rfl (ho.raised _ hcontrol)
  | lost hu =>
    obtain ⟨i, hi⟩ := Option.isSome_iff_exists.1 hi
    obtain ⟨u, hat, -⟩ := Host.instruction?_eq_some_iff.1 hi
    cases hu.symm.trans hat
  | @raises e' hnew =>
    cases he
    refine .created ?_ fun hoverflow => absurd hoverflow (ho.raised _ rfl)
    rw [hexecuting, Exception.leaving, hnew]
    rfl

/-- The step of a running frame lets an exception come up. -/
theorem arises_fetch (hn : first.Nests m.host m.stack 1) (hc : m.control = .running f)
    (he : (m.fetch f).value? = some (.error e)) :
    Arises (Host.maxDepth - first.depth) m (m.fetch f) e := by
  have hexecuting := executing_of_waiting hc hn.waiting
  by_cases hi : (m.host.instruction? f).isSome = true
  · rw [if_pos hi] at hexecuting
    cases hb : m.builtinCall? f with
    | some call =>
      obtain ⟨dest, b, args⟩ := call
      rw [fetch_of_builtinCall? hb] at he ⊢
      exact (answered_callBuiltin (m.push (.call f dest)) b args hn.compiler).arises
        (hn.push_call hi) hexecuting he
    | none =>
      cases hcall : m.functionCall? f with
      | some call =>
        obtain ⟨dest, name, unit, args⟩ := call
        obtain ⟨-, hf⟩ := fetch_of_functionCall? hcall
        rw [hf] at he ⊢
        exact arises_enter (x := m.push (.call f dest)) (hn.push_call hi) hexecuting rfl he
      | none =>
        cases hd : m.definition? f with
        | some definition =>
          rw [fetch_of_definition? hd] at he
          cases he
        | none =>
          exact (fetch_executed hb).arises (ordinary_fetch hb hcall hd) hi hexecuting he
  · -- the frame executes no instruction, and leaves no entry either
    rw [if_neg hi] at hexecuting
    rcases fetch_of_instruction?_eq_none (Option.not_isSome_iff_eq_none.1 hi) with hf | hf
    · rw [hf] at he
      cases he
    · rw [hf] at he ⊢
      cases he
      refine .created ?_ fun ho => absurd ho (Exception.not_isOverflow_runtimeError _)
      rw [hexecuting]
      rfl

/-! ### Moments of a run -/

/-- What returns a value does not raise. -/
theorem quiet_returnTo {a : Activation} (ho : Outermost (a :: m.stack)) (value : Value) :
    (m.returnTo value a).Quiet := by
  intro e he
  cases a with
  | compilation c => exact ho
  | load l =>
    rw [returnTo, finishLoad_eq] at he
    cases he
  | call f dest =>
    dsimp only [returnTo, resume, assign?] at he
    split at he
    · cases he
    · cases hw : f.write? dest value with
      | none => rw [hw] at he; cases he
      | some f' => rw [hw] at he; cases he

/-- An exception that was not there before a step comes up in it. -/
theorem Nested.arises (hn : m.Nested first) (hq : m.Quiet)
    (he : m.step.value? = some (.error e)) :
    Arises (Host.maxDepth - first.depth) m m.step e := by
  have hnests : first.Nests m.host m.stack m.control.frames := hn
  generalize m.step = m', stepped m = hs at he
  cases hs with
  | stays hdone => exact absurd he (hq e)
  | raises he' hstack => exact absurd he' (hq _)
  | fetches hc =>
    rw [hc] at hnests
    exact arises_fetch hnests hc he
  | @returns value a stack hc hstack =>
    have ho := hnests.outermost
    rw [hstack] at ho
    exact absurd he (quiet_returnTo (m := { m with stack }) ho value e)

end ModuleHost.Machine
