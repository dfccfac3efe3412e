import ModuleHost.Proofs.Machine.Elsewhere

/-!
# What waits below does not matter

Everything a machine does happens at the top of its stack.  `m.above below` is the machine `m` with
`below` waiting under all that waits in `m`; until `m` has come to its end, both take the same steps
(`step_above`).  So a call or a load can be followed on a machine of its own, and what it comes to
there is handed to what waits for it: `run_above_cases` cuts a long run at that point.
-/

namespace ModuleHost.Machine

/-- The machine with `below` waiting under everything that waits in it. -/
def above (m : Machine) (below : List Activation) : Machine :=
  { m with stack := m.stack ++ below }

theorem push_eq_above (m : Machine) (a : Activation) :
    m.push a = ({ m with stack := [] } : Machine).above (a :: m.stack) := rfl

section Above

variable (m : Machine) (below : List Activation)

@[simp] theorem above_host : (m.above below).host = m.host := rfl

@[simp] theorem above_world : (m.above below).world = m.world := rfl

@[simp] theorem above_control : (m.above below).control = m.control := rfl

@[simp] theorem above_stack : (m.above below).stack = m.stack ++ below := rfl

/-- Something waits for whatever runs above it. -/
theorem stack_above_ne_nil (a : Activation) : (m.above (a :: below)).stack ≠ [] :=
  List.append_ne_nil_of_right_ne_nil _ (List.cons_ne_nil _ _)

theorem enter_above (unit : Nat) (scope : Scope) (args : List Value) (receiver : Value) :
    (m.above below).enter unit scope args receiver
      = (m.enter unit scope args receiver).above below :=
  enter_elsewhere m id id below unit scope args receiver

theorem enterTopLevel_above (unit : Nat) :
    (m.above below).enterTopLevel unit = (m.enterTopLevel unit).above below :=
  enter_above m below unit .topLevel [] .main

theorem failLoad_above (l : Load) (e : LoadError) :
    (m.above below).failLoad l e = (m.failLoad l e).above below :=
  failLoad_elsewhere m id id below (Or.inr rfl) e

theorem loadCompiledUnits_above (l : Load) (path : String) (units : List CodeUnit) :
    (m.above below).loadCompiledUnits l path units
      = (m.loadCompiledUnits l path units).above below :=
  loadCompiledUnits_elsewhere m id id below (Or.inr rfl) path units

theorem compileAndLoad_above (l : Load) (path source : String) :
    (m.above below).compileAndLoad l path source
      = (m.compileAndLoad l path source).above below := by
  unfold compileAndLoad
  cases Assembly.assemble source path with
  | error e => exact failLoad_above m below l _
  | ok units =>
    dsimp only
    by_cases h : m.host.compiler.executes .declare = true
    · rw [if_pos h, if_pos (show (m.above below).host.compiler.executes .declare = true from h)]
      exact enterTopLevel_above ({ m with host := _ }.push _) below 0
    · rw [if_neg h, if_neg (show ¬ (m.above below).host.compiler.executes .declare = true from h)]
      exact loadCompiledUnits_above m below l path units

theorem callBuiltin_above (b : Builtin) (args : List Value) :
    (m.above below).callBuiltin b args = (m.callBuiltin b args).above below :=
  rel_callBuiltin m id id below (R := fun x y => y = x.above below) id
    (fun x l path source _ => compileAndLoad_above x below l path source) (fun _ => rfl) args

theorem fetch_above (f : Frame) : (m.above below).fetch f = (m.fetch f).above below :=
  rel_fetch m id id below (R := fun x y => y = x.above below) id
    (fun x l path source _ => compileAndLoad_above x below l path source) fun _ => rfl

/-- Until it has come to its end, a machine takes no notice of what waits below it. -/
theorem step_above (h : m.isDone = false) : (m.above below).step = m.step.above below := by
  by_cases htop : ∃ k, m.stack.head? = some (.compilation k)
  · obtain ⟨host, world, control, stack⟩ := m
    obtain ⟨k, hk⟩ := htop
    cases stack with
    | nil => cases hk
    | cons a stack =>
      cases hk
      cases control with
      | running f => exact fetch_above _ below f
      | stuck => cases h
      | returning value =>
        exact loadCompiledUnits_above { host := k.outer, world, control := _, stack } below k.load
          k.path host.units
      | raising e | failing e =>
        exact failLoad_above { host := k.outer, world, control := _, stack } below k.load _
  · exact rel_step m id id below (R := fun x y => y = x.above below) id
      (fun x l path source _ => compileAndLoad_above x below l path source) h
      (fun k hk => htop ⟨k, hk⟩) (fun _ _ => Or.inr rfl) fun _ _ _ => rfl

end Above

theorem step_of_isDone {m : Machine} (h : m.isDone = true) : m.step = m := by
  obtain ⟨host, world, control, stack⟩ := m
  cases control with
  | running f => cases h
  | stuck => rfl
  | returning value | raising e | failing e =>
    cases stack with
    | nil => rfl
    | cons a stack => cases h

/-- What a step can be: the running frame executes an instruction, or a value or an exception
reaches what waits on top, or the machine has come to its end. -/
inductive Stepped (m : Machine) : Machine → Prop
  | fetches {f : Frame} (hc : m.control = .running f) : Stepped m (m.fetch f)
  | stays (hdone : m.isDone = true) : Stepped m m
  | returns {value : Value} {a : Activation} {stack : List Activation}
      (hc : m.control = .returning value) (hstack : m.stack = a :: stack) :
      Stepped m ({ m with stack }.returnTo value a)
  | raises {e : Exception} {a : Activation} {stack : List Activation}
      (he : m.value? = some (.error e)) (hstack : m.stack = a :: stack) :
      Stepped m ({ m with stack }.raiseTo e a)

theorem stepped (m : Machine) : Stepped m m.step := by
  obtain ⟨host, world, control, stack⟩ := m
  cases control with
  | running f => exact .fetches rfl
  | stuck => exact .stays rfl
  | returning value =>
    cases stack with
    | nil => exact .stays rfl
    | cons a stack => exact .returns rfl rfl
  | raising e =>
    cases stack with
    | nil => exact .stays rfl
    | cons a stack => exact .raises rfl rfl
  | failing e =>
    cases stack with
    | nil => exact .stays rfl
    | cons a stack => exact .raises rfl rfl

@[simp] theorem run_zero (m : Machine) : m.run 0 = m := rfl

theorem run_succ (m : Machine) (n : Nat) : m.run (n + 1) = m.step.run n := by
  by_cases h : m.isDone = true
  · have hrun : ∀ k, m.run k = m := by
      intro k
      cases k with
      | zero => rfl
      | succ k => rw [run, if_pos h]
    rw [step_of_isDone h, hrun, hrun]
  · rw [run, if_neg h]

theorem run_add (m : Machine) (a b : Nat) : m.run (a + b) = (m.run a).run b := by
  induction a generalizing m with
  | zero => rw [Nat.zero_add, run_zero]
  | succ a ih => rw [Nat.succ_add_eq_add_succ, Nat.add_succ, run_succ, ih, run_succ]

/-- One more step at the end of a run. -/
theorem run_succ' (m : Machine) (n : Nat) : m.run (n + 1) = (m.run n).step := by
  rw [run_add, run_succ, run_zero]

theorem run_of_isDone {m : Machine} (h : m.isDone = true) (n : Nat) : m.run n = m := by
  induction n with
  | zero => rfl
  | succ n ih => rw [run_succ, step_of_isDone h, ih]

/-- A machine has one end. -/
theorem run_eq_run_of_isDone {m : Machine} {a b : Nat} (ha : (m.run a).isDone = true)
    (hb : (m.run b).isDone = true) : m.run a = m.run b := by
  rcases Nat.le_total a b with hab | hba
  · rw [← Nat.add_sub_cancel' hab, run_add, run_of_isDone ha]
  · rw [← Nat.add_sub_cancel' hba, run_add, run_of_isDone hb]

/-- What holds until a machine has come to its end holds however far it runs. -/
theorem run_of_isDone_run {P : Machine → Prop} {m : Machine} {n : Nat}
    (hdone : (m.run n).isDone = true) (h : ∀ k ≤ n, P (m.run k)) (k : Nat) : P (m.run k) := by
  rcases Nat.le_total k n with hk | hk
  · exact h k hk
  · rw [← Nat.add_sub_cancel' hk, run_add, run_of_isDone hdone]
    exact h n (Nat.le_refl n)

/-- What every step keeps, every run keeps. -/
theorem run_induction {P : Machine → Prop} (hstep : ∀ m, P m → P m.step) {m : Machine} (h : P m)
    (n : Nat) : P (m.run n) := by
  induction n generalizing m with
  | zero => exact h
  | succ n ih =>
    rw [run_succ]
    exact ih (hstep m h)

/-- What has not come to its end has not come to its end above what waits below. -/
theorem isDone_above {m : Machine} (h : m.isDone = false) (below : List Activation) :
    (m.above below).isDone = false := by
  obtain ⟨host, world, control, stack⟩ := m
  cases control with
  | running f => rfl
  | stuck => cases h
  | returning value | raising e | failing e =>
    cases stack with
    | nil => cases h
    | cons a stack => rfl

/-- Until it has come to its end, a machine runs as if nothing waited below it. -/
theorem run_above_of_not_isDone {m : Machine} {n : Nat} (h : (m.run n).isDone = false)
    (below : List Activation) : (m.above below).run n = (m.run n).above below := by
  induction n with
  | zero => rfl
  | succ n ih =>
    cases hn : (m.run n).isDone with
    | true =>
      rw [run_succ', step_of_isDone hn, hn] at h
      cases h
    | false => rw [run_succ', ih hn, step_above _ below hn, run_succ']

/-- A machine that has come to its end comes to it above what waits below, too. -/
theorem exists_run_above_of_isDone {m : Machine} {n : Nat} (h : (m.run n).isDone = true)
    (below : List Activation) : ∃ k ≤ n, (m.run k).isDone = true
      ∧ (m.above below).run k = (m.run k).above below := by
  induction n with
  | zero => exact ⟨0, Nat.le_refl 0, h, rfl⟩
  | succ n ih =>
    cases hn : (m.run n).isDone with
    | true =>
      obtain ⟨k, hk, hrest⟩ := ih hn
      exact ⟨k, Nat.le_succ_of_le hk, hrest⟩
    | false =>
      refine ⟨n + 1, Nat.le_refl _, h, ?_⟩
      rw [run_succ', run_above_of_not_isDone hn, step_above _ below hn, run_succ']

/-- What a machine comes to at its end, it comes to above what waits below, too. -/
theorem exists_run_above_eq {m : Machine} {n : Nat} (h : (m.run n).isDone = true)
    (below : List Activation) : ∃ k, (m.above below).run k = (m.run n).above below := by
  obtain ⟨k, -, hdone, habove⟩ := exists_run_above_of_isDone h below
  exact ⟨k, by rw [habove, run_eq_run_of_isDone hdone h]⟩

/-- A run above what waits below either has not left the upper part yet, or came to the end of the
upper part on its way. -/
theorem run_above_cases (m : Machine) (below : List Activation) (n : Nat) :
    ((m.run n).isDone = false ∧ (m.above below).run n = (m.run n).above below)
      ∨ ∃ k ≤ n, (m.run k).isDone = true
          ∧ (m.above below).run n = ((m.run k).above below).run (n - k) := by
  cases hn : (m.run n).isDone with
  | false => exact Or.inl ⟨rfl, run_above_of_not_isDone hn below⟩
  | true =>
    obtain ⟨k, hk, hdone, hrun⟩ := exists_run_above_of_isDone hn below
    refine Or.inr ⟨k, hk, hdone, ?_⟩
    rw [← hrun, ← run_add, Nat.add_sub_cancel' hk]

end ModuleHost.Machine
