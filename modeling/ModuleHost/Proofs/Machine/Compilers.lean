import ModuleHost.Proofs.Machine.Isolated
import ModuleHost.Proofs.Machine.Nesting

/-!
# The same run under both compilers

A compiler that runs what it compiles makes a run longer: where the other compiler hands on the
units at once, this one first runs them in a host of their own.  Meanwhile the other run stands
still.  `Likewise` says how two machines stand to each other at such moments.  As long as what is
compiled comes to its end without an exception, the runs reach the same machines, but for the
compiler (`Likewise.run`, `Likewise.exists_run`).
-/

namespace ModuleHost

def Activation.isCompilation : Activation → Bool
  | .compilation _ => true
  | _ => false

def Host.withCompiler (h : Host) (c : Compiler) : Host := { h with compiler := c }

namespace Machine

def withCompiler (m : Machine) (c : Compiler) : Machine := { m with host := m.host.withCompiler c }

theorem elsewhere_nil (m : Machine) (c : Compiler) :
    m.elsewhere (fun _ => c) id [] = m.withCompiler c := by
  rw [elsewhere, List.append_nil]
  rfl

/-- Code that is being compiled comes to its end and returns. -/
def Compiles (m : Machine) : Prop :=
  ∀ (z : Machine) (c : Compilation) (below : List Activation),
    m = z.above (.compilation c :: below) → (∀ a ∈ z.stack, ∃ f dest, a = .call f dest) →
      ∃ n value, (z.run n).isDone = true ∧ (z.run n).control = .returning value

variable {m m' x y : Machine} {f : Frame} {l : Load}

/-- Nothing is being compiled. -/
theorem compiles_of_notMem (h : ∀ c, .compilation c ∉ m.stack) : m.Compiles := by
  rintro z c below rfl -
  exact absurd (List.mem_append_right z.stack List.mem_cons_self) (h c)

/-- The code that runs above a compilation is being compiled. -/
theorem compiles_above {z : Machine} (hz : ∀ a ∈ z.stack, ∃ f dest, a = .call f dest) {n : Nat}
    {value : Value} (hdone : (z.run n).isDone = true) (hvalue : (z.run n).control = .returning value)
    (c : Compilation) (below : List Activation) : (z.above (.compilation c :: below)).Compiles := by
  intro z' c' below' heq hz'
  -- both stacks are what comes before the first compilation
  have htake : ∀ (stack : List Activation) (c : Compilation) (below : List Activation),
      (∀ a ∈ stack, ∃ f dest, a = .call f dest) →
      (stack ++ .compilation c :: below).takeWhile (fun a => !a.isCompilation) = stack := by
    intro stack c below hcalls
    rw [List.takeWhile_append_of_pos, List.takeWhile_cons_of_neg Bool.false_ne_true, List.append_nil]
    intro a ha
    obtain ⟨f, dest, rfl⟩ := hcalls a ha
    rfl
  have hstack : z.stack = z'.stack := by
    rw [← htake z.stack c below hz, ← htake z'.stack c' below' hz']
    exact congrArg (fun m => m.stack.takeWhile fun a => !a.isCompilation) heq
  obtain ⟨host, world, control, stack⟩ := z
  obtain ⟨host', world', control', stack'⟩ := z'
  obtain rfl : stack = stack' := hstack
  obtain ⟨rfl, rfl, rfl, -⟩ := Machine.mk.inj heq
  exact ⟨n, value, hdone, hvalue⟩

/-! ### A compiler that runs nothing -/

/-- The compiler of the machine does not run what it compiles, and so nothing waits for a
compilation. -/
structure Declares (m : Machine) : Prop where
  compiler : m.host.compiler = .onRequest
  outermost : Outermost m.stack

theorem Declares.enter (h : m.Declares) (unit : Nat) (scope : Scope) (args : List Value)
    (receiver : Value) : (m.enter unit scope args receiver).Declares := by
  unfold Machine.enter
  split <;> exact ⟨h.compiler, h.outermost⟩

theorem Begun.declares (hb : Begun m m') (h : m.Declares) : m'.Declares := by
  cases hb with
  | failed => exact ⟨h.compiler, h.outermost⟩
  | @entered units arena ledger world l =>
    have hpush : Declares ({ m with
        host := { m.host with arena, ledger }.appendUnits units, world }.push (.load l)) :=
      ⟨h.compiler, h.outermost⟩
    exact hpush.enter _ _ _ _

theorem Answered.declares (ha : Answered m m') (h : m.Declares) : m'.Declares := by
  cases ha with
  | returns | raises => exact ⟨h.compiler, h.outermost⟩
  | loads hb => exact hb.declares h

theorem Declares.fetch (h : m.Declares) (f : Frame) : (m.fetch f).Declares := by
  have hpush : ∀ dest, (m.push (.call f dest)).Declares := fun dest => ⟨h.compiler, h.outermost⟩
  cases hb : m.builtinCall? f with
  | some call =>
    obtain ⟨dest, b, args⟩ := call
    rw [fetch_of_builtinCall? hb]
    exact (answered_callBuiltin (m.push (.call f dest)) b args h.compiler).declares (hpush dest)
  | none =>
    generalize m.fetch f = m', fetch_executed hb = he
    cases he with
    | @goesOn u host f' _ heffect =>
      refine ⟨?_, h.outermost⟩
      cases heffect <;> exact h.compiler
    | calls dest args => exact (hpush dest).enter _ _ _ _
    | returns | halts | raises | lost | stuck => exact ⟨h.compiler, h.outermost⟩

/-- A result reaches a frame or a load. -/
theorem Declares.pop (h : m.Declares) {a : Activation} {stack : List Activation}
    (hstack : m.stack = a :: stack) :
    ({ m with stack } : Machine).Declares ∧ ∀ c, a ≠ .compilation c := by
  obtain ⟨hc, ho⟩ := h
  rw [hstack] at ho
  refine ⟨⟨hc, ?_⟩, ho.not_compilation List.mem_cons_self⟩
  cases a with
  | call | load => exact ho
  | compilation c => exact ho.elim

theorem Declares.step (h : m.Declares) : m.step.Declares := by
  generalize m.step = m', stepped m = hs
  cases hs with
  | fetches hc => exact h.fetch _
  | stays hdone => exact h
  | @returns value a stack hc hstack =>
    obtain ⟨hpop, hcompilation⟩ := h.pop hstack
    cases a with
    | compilation c => exact absurd rfl (hcompilation c)
    | load l =>
      rw [returnTo, finishLoad_eq]
      exact ⟨hpop.compiler, hpop.outermost⟩
    | call f dest =>
      show (resume { m with stack } f dest value).Declares
      unfold resume assign?
      split
      · exact ⟨hpop.compiler, hpop.outermost⟩
      · cases f.write? dest value <;> exact ⟨hpop.compiler, hpop.outermost⟩
  | @raises e a stack he hstack =>
    obtain ⟨hpop, hcompilation⟩ := h.pop hstack
    cases a with
    | compilation c => exact absurd rfl (hcompilation c)
    | call f dest => exact ⟨hpop.compiler, hpop.outermost⟩
    | load l =>
      rw [raiseTo, failLoad_eq]
      exact ⟨hpop.compiler, hpop.outermost⟩

theorem Declares.run (h : m.Declares) (n : Nat) : (m.run n).Declares :=
  run_induction (P := Declares) (fun _ h => h.step) h n

/-! ### One run and the other -/

/-- How a machine whose compiler runs nothing stands to one whose compiler runs what it compiles: it
is the same machine, or it has the units in its table that are still running in a host of their own
in the other one. -/
inductive Likewise : Machine → Machine → Prop
  | same (m : Machine) : Likewise m (m.withCompiler .always)
  | compiles {m z : Machine} {l : Load} {path : String} {us : List CodeUnit}
      (hz : z.Isolated us m.world) : Likewise (m.loadCompiledUnits l path us)
        (z.above (.compilation { load := l, path, outer := m.host.withCompiler .always } :: m.stack))

theorem Likewise.of_eq (h : y = x.elsewhere (fun _ => .always) id []) : Likewise x y := by
  rw [h, elsewhere_nil]
  exact .same x

theorem compiler_enter (m : Machine) (unit : Nat) (scope : Scope) (args : List Value)
    (receiver : Value) : (m.enter unit scope args receiver).host.compiler = m.host.compiler := by
  unfold enter
  split <;> rfl

theorem withCompiler_of_compiler {c : Compiler} (h : m.host.compiler = c) : m.withCompiler c = m := by
  subst h
  rfl

theorem likewise_self (h : m.host.compiler = .always) : Likewise m m := by
  have hsame := Likewise.same m
  rwa [withCompiler_of_compiler h] at hsame

theorem likewise_compileAndLoad (m : Machine) (l : Load) (path source : String) :
    Likewise (m.compileAndLoad l path source) ((m.withCompiler .always).compileAndLoad l path source) := by
  unfold compileAndLoad
  cases Assembly.assemble source path with
  | error e =>
    rw [← elsewhere_nil]
    exact .of_eq (failLoad_elsewhere m _ _ _ (Or.inr rfl) _)
  | ok units =>
    dsimp only
    rw [if_pos (show (m.withCompiler .always).host.compiler.executes .declare = true from rfl)]
    cases hc : m.host.compiler with
    | onRequest =>
      rw [if_neg (show ¬ Compiler.onRequest.executes .declare = true by decide)]
      have hz : Isolated units m.world
          { m with host := (m.host.withCompiler .always).isolated.appendUnits units, stack := [] } :=
        ⟨rfl, rfl, rfl, nofun⟩
      rw [push_eq_above, enterTopLevel_above]
      exact .compiles (hz.enter 0 .topLevel [] .main)
    | always =>
      have hsame : m.withCompiler .always = m := withCompiler_of_compiler hc
      rw [if_pos (show Compiler.always.executes .declare = true from rfl), hsame]
      refine likewise_self ?_
      rw [enterTopLevel, compiler_enter]
      exact hc

theorem loadCompiledUnits_withCompiler (m : Machine) (c : Compiler) (l : Load) (path : String)
    (us : List CodeUnit) :
    (m.withCompiler c).loadCompiledUnits l path us
      = (m.loadCompiledUnits l path us).withCompiler c := by
  rw [← elsewhere_nil, ← elsewhere_nil]
  exact loadCompiledUnits_elsewhere m _ _ _ (Or.inr rfl) path us

theorem Declares.likewise_step (h : m.Declares) (hdone : m.isDone = false) :
    Likewise m.step (m.withCompiler .always).step := by
  have htop : ∀ k, m.stack.head? ≠ some (.compilation k) := by
    intro k hk
    exact h.outermost.not_compilation (List.mem_of_head? hk) k rfl
  have hrel := rel_step m (fun _ => .always) id [] (R := Likewise) Likewise.of_eq
    (fun x l path source _ => by
      rw [elsewhere_nil]
      exact likewise_compileAndLoad x l path source) hdone htop (fun _ _ => Or.inr rfl)
    fun _ _ _ => rfl
  rwa [elsewhere_nil] at hrel

namespace Likewise

/-- A step of the machine that runs what it compiles: either the other one takes it too, or the
units that are being compiled do. -/
theorem step (h : Likewise x y) (hx : x.Declares) (hcompiles : y.Compiles)
    (hdone : y.isDone = false) : Likewise x.step y.step ∨ Likewise x y.step := by
  cases h with
  | same => exact Or.inl (hx.likewise_step hdone)
  | @compiles m z l path us hz =>
    right
    cases hend : z.isDone with
    | false =>
      rw [step_above z _ hend]
      exact .compiles hz.step
    | true =>
      obtain ⟨n, value, -, hvalue⟩ := hcompiles z _ _ rfl hz.calls
      rw [run_of_isDone hend] at hvalue
      have hstep := step_compiled (m := m.withCompiler .always) hz hend hvalue l path
      rw [loadCompiledUnits_withCompiler] at hstep
      exact hstep ▸ .same _

/-- The two come to their ends together. -/
theorem eq_of_isDone (h : Likewise x y) (hcompiles : y.Compiles) (hdone : y.isDone = true) :
    y = x.withCompiler .always := by
  cases h with
  | same => rfl
  | @compiles m z l path us hz =>
    obtain ⟨n, value, hend, hvalue⟩ := hcompiles z _ _ rfl hz.calls
    cases hz' : z.isDone with
    | false =>
      rw [isDone_above hz'] at hdone
      cases hdone
    | true =>
      rw [run_of_isDone hz'] at hvalue
      rw [isDone, above_control, hvalue, above_stack, List.isEmpty_iff] at hdone
      exact absurd hdone (List.append_ne_nil_of_right_ne_nil _ (List.cons_ne_nil _ _))

/-- The machine that runs what it compiles comes to where the other one stands. -/
theorem catch_up (h : Likewise x y) (hcompiles : y.Compiles) :
    ∃ k, y.run k = x.withCompiler .always := by
  cases h with
  | same => exact ⟨0, rfl⟩
  | @compiles m z l path us hz =>
    obtain ⟨n, value, hend, hvalue⟩ := hcompiles z _ _ rfl hz.calls
    obtain ⟨k, habove⟩ := exists_run_above_eq hend
      (.compilation { load := l, path, outer := m.host.withCompiler .always } :: m.stack)
    refine ⟨k + 1, ?_⟩
    rw [run_succ', habove, ← loadCompiledUnits_withCompiler]
    exact step_compiled (m := m.withCompiler .always) (hz.run n) hend hvalue l path

variable (h : Likewise x y) (hx : x.Declares) (hcompiles : ∀ k, (y.run k).Compiles)

include h hx hcompiles

/-- Wherever the one run comes, the other one stands likewise at some moment. -/
theorem run (k : Nat) : ∃ n, Likewise (x.run n) (y.run k) := by
  induction k with
  | zero => exact ⟨0, h⟩
  | succ k ih =>
    obtain ⟨n, hn⟩ := ih
    rw [run_succ']
    cases hdone : (y.run k).isDone with
    | true =>
      rw [step_of_isDone hdone]
      exact ⟨n, hn⟩
    | false =>
      rcases hn.step (hx.run n) (hcompiles k) hdone with hboth | hone
      · exact ⟨n + 1, by rwa [run_succ']⟩
      · exact ⟨n, hone⟩

/-- Wherever the shorter run comes, the longer one comes too. -/
theorem exists_run (n : Nat) : ∃ k, y.run k = (x.run n).withCompiler .always := by
  induction n with
  | zero => exact h.catch_up (hcompiles 0)
  | succ n ih =>
    obtain ⟨k, hk⟩ := ih
    cases hdone : (x.run n).isDone with
    | true =>
      refine ⟨k, ?_⟩
      rw [hk, run_succ', step_of_isDone hdone]
    | false =>
      have hnext : Likewise (x.run (n + 1)) (y.run (k + 1)) := by
        rw [run_succ', run_succ', hk]
        exact (hx.run n).likewise_step hdone
      obtain ⟨j, hj⟩ := hnext.catch_up (hcompiles (k + 1))
      exact ⟨k + 1 + j, by rw [run_add, hj]⟩

/-- Both runs end or neither does, and they end with the same machine but for the compiler. -/
theorem ends : ((∃ n, (y.run n).isDone = true) ↔ ∃ n, (x.run n).isDone = true)
    ∧ ∀ n n', (y.run n).isDone = true → (x.run n').isDone = true →
        y.run n = (x.run n').withCompiler .always := by
  have hend : ∀ n, (y.run n).isDone = true →
      ∃ j, (x.run j).isDone = true ∧ y.run n = (x.run j).withCompiler .always := by
    intro n hn
    obtain ⟨j, hj⟩ := h.run hx hcompiles n
    have heq := hj.eq_of_isDone (hcompiles n) hn
    rw [heq] at hn
    exact ⟨j, hn, heq⟩
  refine ⟨⟨fun ⟨n, hn⟩ => ?_, fun ⟨n, hn⟩ => ?_⟩, fun n n' hn hn' => ?_⟩
  · obtain ⟨j, hj, -⟩ := hend n hn
    exact ⟨j, hj⟩
  · obtain ⟨k, hk⟩ := h.exists_run hx hcompiles n
    refine ⟨k, ?_⟩
    rw [hk]
    exact hn
  · obtain ⟨j, hj, heq⟩ := hend n hn
    rw [heq, run_eq_run_of_isDone hj hn']

end Likewise

end Machine

end ModuleHost
