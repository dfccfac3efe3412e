import Mathlib.Data.List.Infix
import ModuleHost.Proofs.Machine.Outcome

/-!
# The arena

A load notes how long the arena is and cuts it back to that length at its end.  `m.unwound` is what
will be left of the arena of the outermost host when everything that waits in `m` has ended.  A step
may add to it at its end and never takes anything from it (`unwound_step`), so no load that nests in
another one cuts off what was there before; and the end of the outermost load cuts off what has been
added (`Dispatched.arena_eq`).
-/

namespace ModuleHost.Machine

/-! ### What will be left -/

/-- What is left of the arena when everything on the stack has ended. -/
def unwind (arena : List Value) : List Activation → List Value
  | [] => arena
  | .call _ _ :: stack => unwind arena stack
  | .load l :: stack => unwind (arena.take l.arenaMark) stack
  | .compilation c :: stack => unwind (c.outer.arena.take c.load.arenaMark) stack

def unwound (m : Machine) : List Value := unwind m.host.arena m.stack

/-- What would be left if the load ended now. -/
def unwoundAfter (m : Machine) (l : Load) : List Value := (m.push (.load l)).unwound

variable {m m' : Machine} {f : Frame} {l : Load} {n : Nat}

theorem unwind_prefix {arena arena' : List Value} (h : arena <+: arena')
    (stack : List Activation) : unwind arena stack <+: unwind arena' stack := by
  induction stack generalizing arena arena' with
  | nil => exact h
  | cons a stack ih =>
    cases a with
    | call f dest => exact ih h
    | load l => exact ih (h.take _)
    | compilation c => exact List.prefix_rfl

/-- More in the arena, and the same things waiting. -/
theorem unwound_prefix (h : m.host.arena <+: m'.host.arena) (hstack : m'.stack = m.stack) :
    m.unwound <+: m'.unwound := by
  rw [unwound, unwound, hstack]
  exact unwind_prefix h m.stack

/-! ### Loads -/

theorem unwound_enter (m : Machine) (unit : Nat) (scope : Scope) (args : List Value)
    (receiver : Value) : (m.enter unit scope args receiver).unwound = m.unwound := by
  unfold enter
  split <;> rfl

theorem arena_enter (m : Machine) (unit : Nat) :
    (m.enterTopLevel unit).host.arena = m.host.arena := by
  unfold enterTopLevel enter
  split <;> rfl

theorem unwound_finishLoad (m : Machine) (l : Load) :
    (m.finishLoad l).unwound = m.unwoundAfter l := by
  rw [finishLoad_eq]
  rfl

theorem unwound_failLoad (m : Machine) (l : Load) (e : LoadError) :
    (m.failLoad l e).unwound = m.unwoundAfter l := by
  rw [failLoad_eq]
  rfl

/-- A load that begins now leaves nothing in the arena. -/
theorem unwoundAfter_newLoad (m : Machine) (key : Option String) :
    m.unwoundAfter (m.newLoad key) = m.unwound := by
  show unwind (m.host.arena.take m.host.arena.length) m.stack = m.unwound
  rw [List.take_length]
  rfl

theorem Streamed.unwound (h : Streamed m l m') : m.unwoundAfter l <+: m'.unwound := by
  cases h with
  | failed =>
    rw [unwound_failLoad]
    exact List.prefix_rfl
  | entered hw hr ha =>
    rw [enterTopLevel, unwound_enter, ha]
    refine unwind_prefix ?_ m.stack
    show m.host.arena.take l.arenaMark <+: List.take _ (List.take l.arenaMark _)
    rw [List.take_take, Nat.min_self]
    exact (List.prefix_append _ _).take _

theorem Dispatched.unwound (h : Dispatched m l m') : m.unwoundAfter l <+: m'.unwound := by
  have hprepared : ∀ {m₁ : Machine} {l₁ : Load}, Prepared m l m₁ l₁ →
      m₁.unwoundAfter l₁ = m.unwoundAfter l := by
    intro m₁ l₁ hp
    cases hp <;> rfl
  cases h with
  | failed hp =>
    rw [unwound_failLoad, hprepared hp]
  | streamed hp hs =>
    rw [← hprepared hp]
    exact hs.unwound
  | compiles hp =>
    rw [← hprepared hp, enterTopLevel, unwound_enter]
    cases hp <;> exact List.prefix_rfl

/-! ### Steps -/

theorem unwound_callBuiltin (m : Machine) (b : Builtin) (args : List Value) :
    m.unwound <+: (m.callBuiltin b args).unwound := by
  generalize m.callBuiltin b args = m', callBuiltin_cases m b args = hc
  cases hc with
  | prints | adds | refuses | unresolved | known => exact List.prefix_rfl
  | loads =>
    rw [← unwoundAfter_newLoad m none]
    exact (dispatch_cases m _ _).unwound
  | @requires name path =>
    rw [← unwoundAfter_newLoad m (some path)]
    exact (dispatch_cases (m.mapLedger _) _ path).unwound

theorem Effect.arena_prefix {u : CodeUnit} {h h' : Host} (he : Effect f u h h') :
    h.arena <+: h'.arena := by
  cases he with
  | string text => exact List.prefix_append _ _
  | none | global | function => exact List.prefix_rfl

theorem unwound_fetch (m : Machine) (f : Frame) : m.unwound <+: (m.fetch f).unwound := by
  cases hb : m.builtinCall? f with
  | some call =>
    obtain ⟨dest, b, args⟩ := call
    rw [fetch_of_builtinCall? hb]
    exact unwound_callBuiltin (m.push (.call f dest)) b args
  | none =>
    generalize m.fetch f = m', fetch_executed hb = he
    cases he with
    | goesOn hu heffect => exact unwound_prefix heffect.arena_prefix rfl
    | calls =>
      rw [unwound_enter]
      exact List.prefix_rfl
    | returns | halts | raises | lost | stuck => exact List.prefix_rfl

theorem unwound_returnTo (m : Machine) (value : Value) (a : Activation) :
    (m.push a).unwound <+: (m.returnTo value a).unwound := by
  cases a with
  | call f dest =>
    show m.unwound <+: (m.resume f dest value).unwound
    unfold resume assign?
    split
    · exact List.prefix_rfl
    · cases f.write? dest value <;> exact List.prefix_rfl
  | load l =>
    rw [returnTo, unwound_finishLoad]
    exact List.prefix_rfl
  | compilation c => exact (loadCompiledUnits_cases { m with host := c.outer } c.load _ _).unwound

theorem unwound_raiseTo (m : Machine) (e : Exception) (a : Activation) :
    (m.push a).unwound <+: (m.raiseTo e a).unwound := by
  cases a with
  | call f dest => exact List.prefix_rfl
  | load l =>
    rw [raiseTo, unwound_failLoad]
    exact List.prefix_rfl
  | compilation c =>
    rw [raiseTo, failCompilation, unwound_failLoad]
    exact List.prefix_rfl

/-- A step takes nothing from what will be left of the arena. -/
theorem unwound_step (m : Machine) : m.unwound <+: m.step.unwound := by
  obtain ⟨host, world, control, stack⟩ := m
  cases control with
  | running f => exact unwound_fetch _ f
  | stuck => exact List.prefix_rfl
  | returning value =>
    cases stack with
    | nil => exact List.prefix_rfl
    | cons a stack => exact unwound_returnTo ⟨host, world, _, stack⟩ value a
  | raising e =>
    cases stack with
    | nil => exact List.prefix_rfl
    | cons a stack => exact unwound_raiseTo ⟨host, world, _, stack⟩ e a
  | failing e =>
    cases stack with
    | nil => exact List.prefix_rfl
    | cons a stack => exact unwound_raiseTo ⟨host, world, _, stack⟩ e.toException a

theorem unwound_run (m : Machine) (n : Nat) : m.unwound <+: (m.run n).unwound :=
  run_induction (P := fun x => m.unwound <+: x.unwound) (fun x h => h.trans (unwound_step x))
    List.prefix_rfl n

/-! ### The end of the outermost load -/

/-- What has run with nothing waiting below has the arena from before in front of its own. -/
theorem arena_prefix_run {y : Machine} (hy : y.stack = []) (hend : (y.run n).stack = []) :
    y.host.arena <+: (y.run n).host.arena := by
  have hrun := unwound_run y n
  rwa [unwound, unwound, hy, hend] at hrun

theorem arena_eq_of_run_above {y : Machine} (hy : y.stack = [])
    (hmark : l.arenaMark = y.host.arena.length) (h : ((y.above [.load l]).run n).stack = []) :
    ((y.above [.load l]).run n).host.arena = y.host.arena := by
  obtain ⟨k, j, hstack, ⟨v, hv⟩ | ⟨e, he⟩⟩ := exists_of_run_above h
  · have hprefix := arena_prefix_run hy hstack
    rw [hv, returnTo, run_finishLoad hstack, finishLoad_eq]
    show (y.run k).host.arena.take l.arenaMark = y.host.arena
    rw [hmark, ← List.prefix_iff_eq_take.1 hprefix]
  · have hprefix := arena_prefix_run hy hstack
    rw [he, raiseTo, run_failLoad hstack, failLoad_eq]
    show (y.run k).host.arena.take l.arenaMark = y.host.arena
    rw [hmark, ← List.prefix_iff_eq_take.1 hprefix]

theorem arena_failLoad (hmark : l.arenaMark = m.host.arena.length) (e : LoadError) :
    (m.failLoad l e).host.arena = m.host.arena := by
  rw [failLoad_eq]
  show m.host.arena.take l.arenaMark = m.host.arena
  rw [hmark, List.take_length]

theorem Streamed.arena_eq (hs : Streamed m l m') (hstack : m.stack = [])
    (hmark : l.arenaMark = m.host.arena.length) (h : (m'.run n).stack = []) :
    (m'.run n).host.arena = m.host.arena := by
  cases hs with
  | @failed pending e he =>
    rw [run_failLoad (show Machine.stack { m with host := { m.host with pending } } = [] from
      hstack)]
    exact arena_failLoad (m := { m with host := { m.host with pending } }) hmark e
  | @entered world bytes units attribution arena hw hr ha =>
    have harena : arena = m.host.arena := by
      rw [ha, hmark, List.take_left]
    subst harena
    rw [push_eq_above, enterTopLevel_above] at h ⊢
    rw [show Machine.stack { m with host := _, world := world } = [] from hstack] at h ⊢
    refine (arena_eq_of_run_above (stack_enter ..) ?_ h).trans ?_
    · rw [hmark, arena_enter]
      rfl
    · rw [arena_enter]
      rfl

/-- When a load has ended on which nothing else waits, the arena is what it was. -/
theorem Dispatched.arena_eq (hd : Dispatched m l m') (hstack : m.stack = [])
    (hmark : l.arenaMark = m.host.arena.length) (h : (m'.run n).stack = []) :
    (m'.run n).host.arena = m.host.arena := by
  have hprepared : ∀ {m₁ : Machine} {l₁ : Load}, Prepared m l m₁ l₁ →
      m₁.stack = [] ∧ m₁.host.arena = m.host.arena ∧ l₁.arenaMark = m.host.arena.length := by
    intro m₁ l₁ hp
    rw [hp.stack, hp.host, hp.arenaMark]
    exact ⟨hstack, rfl, hmark⟩
  cases hd with
  | failed hp =>
    obtain ⟨hstack₁, harena₁, hmark₁⟩ := hprepared hp
    rw [run_failLoad hstack₁, arena_failLoad (hmark₁.trans (congrArg _ harena₁.symm)), harena₁]
  | streamed hp hs =>
    obtain ⟨hstack₁, harena₁, hmark₁⟩ := hprepared hp
    rw [hs.arena_eq hstack₁ (hmark₁.trans (congrArg _ harena₁.symm)) h, harena₁]
  | @compiles m₁ l₁ path units hp hc =>
    obtain ⟨hstack₁, -, hmark₁⟩ := hprepared hp
    rw [push_eq_above, enterTopLevel_above] at h ⊢
    rw [show Machine.stack { m₁ with host := m.host.isolated.appendUnits units } = [] from
      hstack₁] at h ⊢
    obtain ⟨k, j, hx, ⟨v, hv⟩ | ⟨e, he⟩⟩ := exists_of_run_above h
    · -- the units that were compiled are loaded into the host that has waited
      rw [hv] at h ⊢
      exact (loadCompiledUnits_cases _ _ _ _).arena_eq hx hmark₁ h
    · generalize run k _ = x at hx he
      have hx' : Machine.stack { x with host := m.host } = [] := hx
      rw [he, raiseTo, failCompilation, run_failLoad hx']
      exact arena_failLoad (m := { x with host := m.host }) hmark₁ _

end ModuleHost.Machine
