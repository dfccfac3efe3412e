import ModuleHost.Proofs.Machine.Discipline

/-!
# What a load comes to

A load on which nothing else waits ends in one of two ways (`Dispatched.outcome`).  It is refused,
before any code has run, and then nothing is changed but the numbering of temporary files.  Or code
has run, or may have, and then the machine was led by moves of the ledger discipline to the point at
which the load ended well, or with an exception.
-/

namespace ModuleHost.Machine

open Books

/-- A load of a file that nothing else waits for has come to the machine `m'`. -/
inductive Outcome (m : Machine) (l : Load) : Machine → Prop
  | refused {m₁ : Machine} {l₁ : Load} {e : LoadError} (hp : Prepared m l m₁ l₁)
      (he : e.isRaised = false) : Outcome m l (m₁.failLoad l₁ e)
  | finished {x : Machine} {l₁ : Load} {log : List DispatchEvent} (hkey : l₁.key = l.key)
      (hx : Obeys m.host.config.retryFailed ⟨m.host.ledger, []⟩ log x) (hstack : x.stack = []) :
      Outcome m l (x.finishLoad l₁)
  | failed {x : Machine} {l₁ : Load} {log : List DispatchEvent} {e : LoadError}
      (hkey : l₁.key = l.key)
      (hx : Obeys m.host.config.retryFailed ⟨m.host.ledger, []⟩ log x) (hstack : x.stack = [])
      (he : m.host.compiler = .onRequest → e.isRaised = true) : Outcome m l (x.failLoad l₁ e)

variable {m m' : Machine} {l : Load} {n : Nat}

/-- The result of what ran above an activation is handed to it. -/
theorem exists_of_run_above {y : Machine} {a : Activation}
    (h : ((y.above [a]).run n).stack = []) :
    ∃ k j, (y.run k).stack = []
      ∧ ((∃ v, (y.above [a]).run n = ((y.run k).returnTo v a).run j)
        ∨ ∃ e, (y.above [a]).run n = ((y.run k).raiseTo e a).run j) := by
  have happend : ∀ stack : List Activation, stack ++ [a] ≠ [] := by
    intro stack
    simp
  rcases run_above_cases y [a] n with ⟨-, hrun⟩ | ⟨k, -, hdone, hrun⟩
  · rw [hrun] at h
    exact absurd h (happend _)
  rw [hrun] at h ⊢
  generalize hz : y.run k = z at *
  obtain ⟨host, world, control, stack⟩ := z
  cases control with
  | running f => cases hdone
  | stuck =>
    have hstuck : (Machine.above ⟨host, world, .stuck, stack⟩ [a]).isDone = true := rfl
    rw [run_of_isDone hstuck] at h
    exact absurd h (happend _)
  | returning v | raising e | failing e =>
    obtain rfl : stack = [] := List.isEmpty_iff.1 hdone
    cases hj : n - k with
    | zero =>
      rw [hj, run_zero] at h
      exact absurd h (happend _)
    | succ j =>
      refine ⟨k, j, by rw [hz], ?_⟩
      rw [run_succ, hz]
      first
        | exact Or.inl ⟨_, rfl⟩
        | exact Or.inr ⟨_, rfl⟩

theorem run_finishLoad (hstack : m.stack = []) (l : Load) (n : Nat) :
    (m.finishLoad l).run n = m.finishLoad l := by
  apply run_of_isDone
  rw [finishLoad_eq, isDone, hstack]
  rfl

theorem run_failLoad (hstack : m.stack = []) (l : Load) (e : LoadError) (n : Nat) :
    (m.failLoad l e).run n = m.failLoad l e := by
  apply run_of_isDone
  rw [failLoad_eq, isDone, hstack]
  rfl

/-- A run above a load ends the load. -/
theorem outcome_above_load {y : Machine} {l₁ : Load} {log : List DispatchEvent}
    (hkey : l₁.key = l.key) (hy : Obeys m.host.config.retryFailed ⟨m.host.ledger, []⟩ log y)
    (h : ((y.above [.load l₁]).run n).stack = []) :
    Outcome m l ((y.above [.load l₁]).run n) := by
  obtain ⟨k, j, hstack, ⟨v, hv⟩ | ⟨e, he⟩⟩ := exists_of_run_above h
  · obtain ⟨log', hx⟩ := hy.run k
    rw [hv, returnTo, run_finishLoad hstack]
    exact .finished hkey hx hstack
  · obtain ⟨log', hx⟩ := hy.run k
    rw [he, raiseTo, run_failLoad hstack]
    exact .failed hkey hx hstack fun _ => rfl

/-- A machine that has just begun to load, with nothing waiting. -/
theorem obeys_begun {x : Machine} {ledger : Ledger} {retry : Bool} (hstack : x.stack = [])
    (hledger : x.host.ledger = ledger) (hconfig : x.host.config.retryFailed = retry) :
    Obeys retry ⟨ledger, []⟩ [] x := by
  refine obeys_of_outermost ?_ hconfig ?_
  · rw [hstack]
    trivial
  · rw [hstack, hledger]
    exact .refl _

theorem Streamed.outcome {m₁ m₂ : Machine} {l₁ : Load} (hs : Streamed m₁ l₁ m₂)
    (hkey : l₁.key = l.key) (hstack : m₁.stack = []) (hledger : m₁.host.ledger = m.host.ledger)
    (hconfig : m₁.host.config.retryFailed = m.host.config.retryFailed)
    (hp : Prepared m l m₁ l₁ ∨ m.host.compiler ≠ .onRequest) (h : (m₂.run n).stack = []) :
    Outcome m l (m₂.run n) := by
  cases hs with
  | @failed pending e he =>
    rw [run_failLoad (show Machine.stack { m₁ with host := { m₁.host with pending } } = [] from
      hstack)]
    cases hr : e.isRaised with
    | true => exact .failed hkey (obeys_begun hstack hledger hconfig) hstack fun _ => hr
    | false =>
      rcases hp with hp | hc
      · obtain rfl := he hr
        exact .refused hp hr
      · exact .failed hkey (obeys_begun hstack hledger hconfig) hstack fun ho => absurd ho hc
  | @entered world bytes units attribution arena hw hr ha =>
    rw [push_eq_above, enterTopLevel_above] at h ⊢
    rw [show Machine.stack { m₁ with host := _, world := world } = [] from hstack] at h ⊢
    apply outcome_above_load hkey _ h
    · exact []
    · refine Obeys.enter ?_ _ _ _ _
      exact obeys_begun rfl hledger hconfig

theorem Dispatched.outcome (hd : Dispatched m l m') (hstack : m.stack = [])
    (h : (m'.run n).stack = []) : Outcome m l (m'.run n) := by
  cases hd with
  | @failed m₁ l₁ e hp he =>
    rw [run_failLoad (hp.stack.trans hstack)]
    exact .refused hp he
  | @streamed m₁ _ l₁ hp hs =>
    refine hs.outcome hp.key (hp.stack.trans hstack) ?_ ?_ (Or.inl hp) h
    · rw [hp.host]
    · rw [hp.host]
  | @compiles m₁ l₁ path units hp hc =>
    have hstack₁ : m₁.stack = [] := hp.stack.trans hstack
    have hcompiler : m.host.compiler ≠ .onRequest := by
      intro ho
      rw [ho] at hc
      cases hc
    rw [push_eq_above, enterTopLevel_above] at h ⊢
    rw [show Machine.stack { m₁ with host := m.host.isolated.appendUnits units } = [] from
      hstack₁] at h ⊢
    obtain ⟨k, j, hx, hrun⟩ := exists_of_run_above h
    generalize run k _ = x at hx hrun
    obtain ⟨v, hv⟩ | ⟨e, he⟩ := hrun
    · -- the compiled units are loaded into the host that has waited
      rw [hv] at h ⊢
      exact (loadCompiledUnits_cases _ _ _ _).outcome hp.key hx rfl rfl (Or.inr hcompiler) h
    · have hx' : Machine.stack { x with host := m.host } = [] := hx
      rw [he, raiseTo, failCompilation, run_failLoad hx']
      exact .failed hp.key (obeys_begun hx' rfl rfl) hx' fun ho => absurd ho hcompiler

end ModuleHost.Machine
