import ModuleHost.Proofs.Machine.Growth

/-!
# How a stack is taken down

Two things take down everything that waits in a host, one activation with every step, and nothing
runs on the way.  An exception gets an entry for every frame that it leaves (`raising_run`).  A
value that is returned when the host has halted becomes nil in every frame and `true` in every load,
and nothing else changes (`Stopped.run`).
-/

namespace ModuleHost

theorem CodeUnit.getElem?_of_isPrefix {us vs : List CodeUnit} (h : us <+: vs) {k : Nat}
    {u : CodeUnit} (hu : us[k]? = some u) : vs[k]? = some u := by
  obtain ⟨rest, rfl⟩ := h
  rw [List.getElem?_append_left (List.getElem?_eq_some_iff.1 hu).1, hu]

/-! ### Frames -/

def Activation.frame? : Activation → Option Frame
  | .call f _ => some f
  | .load _ | .compilation _ => none

/-- What the activation comes to when the host has halted: a frame returns nil, and a load has ended
well. -/
def Activation.haltValue : Activation → Value
  | .call .. => .nil
  | .load _ | .compilation _ => .bool true

section

variable {h h' : Host} {f : Frame} {i : Instruction}

/-- A frame is in the file of its unit, on the line of its position, and in its scope. -/
theorem Frame.location_eq {units : List CodeUnit} {u : CodeUnit} (hu : units[f.unit]? = some u) :
    f.location units = u.filename.getD "-" ++ ":" ++ toString (u.lineAt f.position).toNat ++ ":in "
      ++ f.scope.label := by
  rw [location, hu]

/-- Units that are put behind the others do not change what a frame executes. -/
theorem Host.instruction?_of_isPrefix (hu : h.units <+: h'.units) (hi : h.instruction? f = some i) :
    h'.instruction? f = some i := by
  obtain ⟨u, hat, hi⟩ := instruction?_eq_some_iff.1 hi
  exact instruction?_eq_some_iff.2 ⟨u, CodeUnit.getElem?_of_isPrefix hu hat, hi⟩

/-- Nor do they change where it is. -/
theorem Frame.location_of_isPrefix (hu : h.units <+: h'.units) (hi : h.instruction? f = some i) :
    f.location h'.units = f.location h.units := by
  obtain ⟨u, hat, -⟩ := Host.instruction?_eq_some_iff.1 hi
  rw [location_eq hat, location_eq (CodeUnit.getElem?_of_isPrefix hu hat)]

end

namespace Machine

/-- The frames that wait, the innermost first. -/
def callers (stack : List Activation) : List Frame := stack.filterMap Activation.frame?

theorem callers_call (f : Frame) (dest : UInt8) (stack : List Activation) :
    callers (.call f dest :: stack) = f :: callers stack := rfl

def active (m : Machine) : List Frame :=
  match m.control with
  | .running f => f :: callers m.stack
  | _ => callers m.stack

/-- The active frames that are executing an instruction, the innermost first. -/
def executing (m : Machine) : List Frame :=
  m.active.filter fun f => (m.host.instruction? f).isSome

/-- The entries of the frames in a backtrace. -/
def entries (units : List CodeUnit) (frames : List Frame) : List String :=
  frames.map fun f => f.location units

variable {m : Machine} {e : Exception} {a : Activation} {stack : List Activation}

theorem Outermost.not_compilation (ho : Outermost stack) (ha : a ∈ stack) (c : Compilation) :
    a ≠ .compilation c := by
  rintro rfl
  induction stack with
  | nil => cases ha
  | cons b stack ih =>
    cases b with
    | compilation c' => exact ho
    | call f dest => exact ih ho ((List.mem_cons.1 ha).resolve_left nofun)
    | load l => exact ih ho ((List.mem_cons.1 ha).resolve_left nofun)

theorem value?_eq_error_iff :
    m.value? = some (.error e)
      ↔ m.control = .raising e ∨ ∃ e', m.control = .failing e' ∧ e'.toException = e := by
  unfold value?
  cases m.control <;> simp

/-! ### By an exception -/

/-- The exception takes off what waits on top. -/
theorem raising_step (he : m.value? = some (.error e)) (hstack : m.stack = a :: stack)
    (ha : ∀ c, a ≠ .compilation c) :
    m.step.stack = stack ∧ m.step.host.units = m.host.units
      ∧ m.step.value? = some (.error { e with
          backtrace := e.backtrace ++ entries m.host.units a.frame?.toList }) := by
  have hstep : m.step = { m with stack }.raiseTo e a := by
    rcases value?_eq_error_iff.1 he with hc | ⟨e', hc, rfl⟩
    · rw [step, hc, hstack]
    · rw [step, hc, hstack]
  rw [hstep]
  cases a with
  | call f dest => exact ⟨rfl, rfl, rfl⟩
  | compilation c => exact absurd rfl (ha c)
  | load l =>
    have hsame : e.backtrace ++ entries m.host.units [] = e.backtrace := List.append_nil _
    rw [raiseTo, failLoad_eq, Activation.frame?, Option.toList_none, hsame]
    exact ⟨rfl, rfl, rfl⟩

theorem entries_callers_cons (units : List CodeUnit) (a : Activation) (stack : List Activation) :
    entries units (callers (a :: stack))
      = entries units a.frame?.toList ++ entries units (callers stack) := by
  rw [callers, List.filterMap_cons]
  cases a.frame? <;> rfl

/-- An exception takes down all that waits in the host and gets the entries of the frames. -/
theorem raising_run (he : m.value? = some (.error e)) (ho : Outermost m.stack) :
    (m.run m.stack.length).stack = []
      ∧ (m.run m.stack.length).value? = some (.error { e with
          backtrace := e.backtrace ++ entries m.host.units (callers m.stack) }) := by
  generalize hstack : m.stack = stack at ho
  induction stack generalizing m e with
  | nil =>
    have hsame : e.backtrace ++ entries m.host.units (callers []) = e.backtrace :=
      List.append_nil _
    rw [List.length_nil, run_zero, hsame]
    exact ⟨hstack, he⟩
  | cons a stack ih =>
    have ha := ho.not_compilation List.mem_cons_self
    have hbelow : Outermost stack := by
      cases a with
      | compilation c => exact ho.elim
      | call f dest => exact ho
      | load l => exact ho
    obtain ⟨hstack', hunits, he'⟩ := raising_step he hstack ha
    rw [List.length_cons, run_succ, entries_callers_cons, ← List.append_assoc, ← hunits]
    rw [← hunits] at he'
    exact ih he' hstack' hbelow

/-! ### By a halt -/

/-- The host has been stopped, and differs from the host `h` that it was then in nothing but what
the end of a frame or of a load gives back. -/
structure Stopped (h : Host) (m : Machine) : Prop where
  returning : ∃ value, m.control = .returning value
  host : m.host = { h with
    halted := true
    depth := m.host.depth
    arena := m.host.arena
    ledger := m.host.ledger }

variable {h : Host}

theorem Stopped.isDone (hm : m.Stopped h) (hstack : m.stack = []) : m.isDone = true := by
  obtain ⟨value, hvalue⟩ := hm.returning
  rw [Machine.isDone, hvalue, hstack]
  rfl

/-- A halted host takes off what waits on top, whatever the value. -/
theorem Stopped.step (hm : m.Stopped h) (hstack : m.stack = a :: stack)
    (ha : ∀ c, a ≠ .compilation c) :
    m.step.Stopped h ∧ m.step.stack = stack ∧ m.step.control = .returning a.haltValue
      ∧ m.step.host.ledger = m.host.ledger.completed a.key? := by
  obtain ⟨⟨value, hvalue⟩, hhost⟩ := hm
  have hhalted : m.host.halted = true := by rw [hhost]
  have hstep : m.step = { m with stack }.returnTo value a := by rw [Machine.step, hvalue, hstack]
  rw [hstep]
  cases a with
  | compilation c => exact absurd rfl (ha c)
  | call f dest =>
    have hresume : { m with stack }.resume f dest value = { m with stack }.returnFrom .nil := by
      rw [resume, if_pos hhalted]
    rw [returnTo, hresume]
    refine ⟨⟨⟨.nil, rfl⟩, ?_⟩, rfl, rfl, rfl⟩
    rw [returnFrom, Host.leaveFrame, hhost]
  | load l =>
    rw [returnTo, finishLoad_eq]
    refine ⟨⟨⟨.bool true, rfl⟩, ?_⟩, rfl, rfl, rfl⟩
    rw [Host.restoreArena, hhost]

/-- A halted host takes off everything, an activation with each step. -/
theorem Stopped.run (hm : m.Stopped h) (ho : Outermost m.stack) (j : Nat) :
    (m.run j).Stopped h ∧ (m.run j).stack = m.stack.drop j := by
  induction j with
  | zero => exact ⟨hm, rfl⟩
  | succ j ih =>
    obtain ⟨hstopped, hstack⟩ := ih
    rw [run_succ', ← List.tail_drop, ← hstack]
    cases hrest : (m.run j).stack with
    | nil =>
      rw [step_of_isDone (hstopped.isDone hrest)]
      exact ⟨hstopped, hrest⟩
    | cons a rest =>
      have hmem : a ∈ m.stack := by
        refine List.mem_of_mem_drop (i := j) ?_
        rw [← hstack, hrest]
        exact List.mem_cons_self
      obtain ⟨hstep, hbelow, -⟩ := hstopped.step hrest (ho.not_compilation hmem)
      exact ⟨hstep, hbelow⟩

/-- What the activation at a place comes to. -/
theorem Stopped.handOn (hm : m.Stopped h) (ho : Outermost m.stack) {j : Nat}
    (ha : m.stack[j]? = some a) :
    (m.run (j + 1)).control = .returning a.haltValue
      ∧ (m.run (j + 1)).host.ledger = (m.run j).host.ledger.completed a.key? := by
  obtain ⟨hstopped, hstack⟩ := hm.run ho j
  obtain ⟨hlt, hat⟩ := List.getElem?_eq_some_iff.1 ha
  rw [List.drop_eq_getElem_cons hlt, hat] at hstack
  obtain ⟨-, -, hcontrol, hledger⟩ :=
    hstopped.step hstack (ho.not_compilation (List.mem_of_getElem? ha))
  rw [run_succ']
  exact ⟨hcontrol, hledger⟩

/-! ### At the bottom -/

/-- Below everything else a frame waits: the one that was invoked. -/
def Grounded (stack : List Activation) : Prop :=
  ∀ a, stack.getLast? = some a → a.frame?.isSome = true

theorem grounded_nil : Grounded [] := by
  intro a ha
  cases ha

theorem Grounded.append {above : List Activation} (hg : Grounded stack) (hne : stack ≠ []) :
    Grounded (above ++ stack) := by
  intro a ha
  rw [List.getLast?_append_of_ne_nil _ hne] at ha
  exact hg a ha

theorem Grounded.push_call (hg : Grounded stack) (f : Frame) (dest : UInt8) :
    Grounded (.call f dest :: stack) := by
  cases stack with
  | nil =>
    intro a ha
    cases ha
    rfl
  | cons b stack =>
    show Grounded ([.call f dest] ++ b :: stack)
    exact hg.append (List.cons_ne_nil b stack)

theorem Grounded.pop (hg : Grounded (a :: stack)) : Grounded stack := by
  cases stack with
  | nil => exact grounded_nil
  | cons b stack =>
    intro c hc
    exact hg c (by rwa [List.getLast?_cons_cons])

/-- Only a frame can wait alone. -/
theorem Grounded.ne_nil (hg : Grounded (a :: stack)) (ha : a.frame? = none) : stack ≠ [] := by
  rintro rfl
  have hframe := hg a rfl
  rw [ha] at hframe
  cases hframe

theorem grounded_fetch (f : Frame) (hg : Grounded m.stack) : Grounded (m.fetch f).stack := by
  cases hb : m.builtinCall? f with
  | some call =>
    obtain ⟨dest, b, args⟩ := call
    rw [fetch_of_builtinCall? hb, push_eq_above, callBuiltin_above]
    exact (hg.push_call f dest).append (List.cons_ne_nil _ _)
  | none =>
    generalize m.fetch f = m', fetch_executed hb = he
    cases he with
    | calls dest args _ =>
      rw [stack_enter]
      exact hg.push_call f dest
    | goesOn | returns | halts | raises | lost | stuck => exact hg

theorem grounded_returnTo (value : Value) (hg : Grounded (a :: m.stack)) :
    Grounded (m.returnTo value a).stack := by
  cases a with
  | call f dest =>
    show Grounded (m.resume f dest value).stack
    unfold resume assign?
    split
    · exact hg.pop
    · cases f.write? dest value <;> exact hg.pop
  | load l =>
    rw [returnTo, stack_finishLoad]
    exact hg.pop
  | compilation c =>
    have habove : (m.returnTo value (.compilation c))
        = (loadCompiledUnits { m with host := c.outer, stack := [] } c.load c.path
            m.host.units).above m.stack :=
      loadCompiledUnits_above { m with host := c.outer, stack := [] } m.stack c.load c.path _
    rw [habove]
    exact hg.pop.append (hg.ne_nil rfl)

theorem grounded_raiseTo (e : Exception) (hg : Grounded (a :: m.stack)) :
    Grounded (m.raiseTo e a).stack := by
  cases a with
  | call f dest => exact hg.pop
  | load l =>
    rw [raiseTo, stack_failLoad]
    exact hg.pop
  | compilation c =>
    rw [raiseTo, failCompilation, stack_failLoad]
    exact hg.pop

theorem grounded_step (hg : Grounded m.stack) : Grounded m.step.stack := by
  generalize m.step = m', stepped m = hs
  cases hs with
  | fetches hc => exact grounded_fetch _ hg
  | stays hdone => exact hg
  | @returns value a stack hc hstack =>
    rw [hstack] at hg
    exact grounded_returnTo (m := { m with stack }) value hg
  | @raises e a stack he hstack =>
    rw [hstack] at hg
    exact grounded_raiseTo (m := { m with stack }) e hg

end Machine

end ModuleHost
