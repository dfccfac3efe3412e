import ModuleHost.Proofs.Machine.Changed
import ModuleHost.Proofs.Machine.Origins
import Mathlib.Data.Nat.Find

/-!
# Finalized units

Finalizing a unit puts `nil r0` and `ret r0` in the place of its last halt, so it changes what
stands at the position of the halt and behind it, and nothing else (`agreesAt_finalize`).  An
invocation of the finalized unit goes beside one of the unit as it was (`Follows`) until the frame
comes to the last halt or behind it.  Coming to the halt it returns nil all the same, but the host
has not halted.  Coming behind it, where the unit used to be over, it finds the `ret`
(`finalized_beside`).
-/

namespace ModuleHost

open Machine

namespace CodeUnit

variable {u : CodeUnit} {position : Nat}

/-- Nothing changes but the last instruction and what stands behind it. -/
theorem agreesAt_finalize (hu : u.EndsInHalt) (hlines : u.lines.length = u.instructions.length)
    (hlast : position + 1 ≠ u.instructions.length) (hend : position ≠ u.instructions.length) :
    u.AgreesAt position u.finalize where
  instruction := by
    rw [instructions_finalize hu]
    have hlength : u.instructions.dropLast.length = u.instructions.length - 1 :=
      List.length_dropLast
    by_cases hlt : position < u.instructions.dropLast.length
    · rw [List.getElem?_append_left hlt, List.getElem?_dropLast, if_pos (hlength ▸ hlt)]
    · have hpositive := hu.length_pos
      have hbehind : u.instructions.length < position := by omega
      rw [List.getElem?_eq_none (Nat.le_of_lt hbehind), List.getElem?_eq_none_iff,
        List.length_append, hlength, List.length_cons, List.length_singleton]
      omega
  line := by
    rw [lineAt, lineAt, lines_finalize hu]
    by_cases hlt : position < u.lines.length
    · rw [List.getElem?_append_left hlt]
    · have hbehind : u.lines.length < position := by omega
      rw [List.getElem?_eq_none (Nat.le_of_lt hbehind), List.getElem?_eq_none]
      rw [List.length_append, List.length_singleton]
      omega
  symbols := symbols_finalize u
  children := children_finalize u
  filename := filename_finalize u

/-- In the place of the last halt stands `nil r0`, and behind it `ret r0`. -/
theorem getElem?_finalize (hu : u.EndsInHalt) (hlast : position + 1 = u.instructions.length) :
    u.finalize.instructions[position]? = some { opcode := .loadNil }
      ∧ u.finalize.instructions[position + 1]? = some { opcode := .ret } := by
  have hlength : u.instructions.dropLast.length = position := by
    rw [List.length_dropLast, ← hlast, Nat.add_sub_cancel]
  rw [instructions_finalize hu, ← hlength]
  constructor
  · rw [List.getElem?_append_right (Nat.le_refl _), Nat.sub_self, List.getElem?_cons_zero]
  · rw [List.getElem?_append_right (Nat.le_add_right _ 1), Nat.add_sub_cancel_left]
    rfl

theorem getElem?_of_endsInHalt (hu : u.EndsInHalt) (hlast : position + 1 = u.instructions.length) :
    ∃ i, u.instructions[position]? = some i ∧ i.opcode = .halt := by
  have hget : u.instructions.getLast? = u.instructions[position]? := by
    rw [List.getLast?_eq_getElem?, ← hlast, Nat.add_sub_cancel]
  rw [EndsInHalt, hget] at hu
  exact Option.map_eq_some_iff.1 hu

end CodeUnit

namespace Machine

/-- The first frame of the unit has come to its last instruction, or to where the unit is over. -/
def ComesToEnd (m : Machine) (u : CodeUnit) : Prop :=
  ∃ f, m.rootFrame? = some f
    ∧ (f.position + 1 = u.instructions.length ∨ f.position = u.instructions.length)

/-- The second machine runs the finalized unit where the first one runs the unit as it was. -/
inductive Follows (u : CodeUnit) (k : Nat) : Machine → Machine → Prop
  | runs {m : Machine} {f : Frame} (hframe : m.rootFrame? = some f) (hunit : f.unit = k) :
      Follows u k m (m.changed k CodeUnit.finalize)
  | waits {z z' : Machine} {f : Frame} {dest : UInt8} (hz : Changes k CodeUnit.finalize z z')
      (hunit : f.unit = k) (hposition : f.position + 1 < u.instructions.length) :
      Follows u k (z.above [.call f dest]) (z'.above [.call f dest])
  | ended {m : Machine} (hdone : m.isDone = true) (hstack : m.stack = []) :
      Follows u k m (m.changed k CodeUnit.finalize)

variable {m m' : Machine} {u : CodeUnit} {k : Nat}

theorem units_finalized {f : Frame} (hunit : f.unit = k) (hu : m.host.units[k]? = some u) :
    (m.changed k CodeUnit.finalize).host.units[f.unit]? = some u.finalize := by
  show (m.host.units.modify k CodeUnit.finalize)[f.unit]? = _
  rw [hunit, List.getElem?_modify_eq, hu]
  rfl

/-- The first frame does not see that its unit has been finalized, where it is. -/
theorem unseen_finalize (hu : m.host.units[k]? = some u) (hhalt : u.EndsInHalt)
    (hlines : u.lines.length = u.instructions.length) {f : Frame} (hunit : f.unit = k)
    (hlast : f.position + 1 ≠ u.instructions.length) (hend : f.position ≠ u.instructions.length) :
    m.Unseen k CodeUnit.finalize f := by
  rw [Unseen, units_finalized hunit hu, hunit, hu]
  exact .some (CodeUnit.agreesAt_finalize hhalt hlines hlast hend)

/-- The first frame waits for what has changed in nothing but the unit. -/
theorem Follows.call {z z' : Machine} {f : Frame} {dest : UInt8} {below : List Activation}
    (hz : Changes k CodeUnit.finalize z z') (hbelow : below = [.call f dest]) (hunit : f.unit = k)
    (hposition : f.position + 1 < u.instructions.length) :
    Follows u k (z.above below) (z'.above below) := by
  rw [hbelow]
  exact .waits hz hunit hposition

/-- One instruction of the first frame before the last one. -/
theorem Follows.fetch {f : Frame} (hframe : m.rootFrame? = some f) (hunit : f.unit = k)
    (hu : m.host.units[k]? = some u) (hhalt : u.EndsInHalt)
    (hlines : u.lines.length = u.instructions.length)
    (hfree : ∀ name, m.host.functions.get? name ≠ some k) (hnot : ¬ m.ComesToEnd u) :
    Follows u k m.step (m.changed k CodeUnit.finalize).step := by
  obtain ⟨hstack, hc⟩ := rootFrame?_eq_some_iff.1 hframe
  have hlast : f.position + 1 ≠ u.instructions.length := fun h => hnot ⟨f, hframe, Or.inl h⟩
  have hend : f.position ≠ u.instructions.length := fun h => hnot ⟨f, hframe, Or.inr h⟩
  have hunseen := unseen_finalize hu hhalt hlines hunit hlast hend
  have havoids : Avoids k m.host [] := ⟨(List.getElem?_eq_some_iff.1 hu).1, trivial, nofun⟩
  -- a call stands before the last instruction
  have hcall : ∀ i, m.host.instruction? f = some i → f.position + 1 < u.instructions.length := by
    intro i hi
    obtain ⟨v, hv, hi⟩ := Host.instruction?_eq_some_iff.1 hi
    rw [hunit, hu] at hv
    cases hv
    have hlt := (List.getElem?_eq_some_iff.1 hi).1
    omega
  have hc' : (m.changed k CodeUnit.finalize).control = .running f := hc
  rw [step_of_running hc, step_of_running hc']
  cases hb : m.builtinCall? f with
  | some call =>
    obtain ⟨dest, b, args⟩ := call
    obtain ⟨v, i, -, hv, hi, -⟩ := instruction_of_builtinCall? hb
    rw [fetch_of_builtinCall? hb, fetch_of_builtinCall? (hunseen.builtinCall?.trans hb),
      push_eq_above, push_eq_above, callBuiltin_above, callBuiltin_above]
    exact .call (Avoids.callBuiltin (m := { m with stack := [] }) havoids b args)
      (congrArg (.call f dest :: ·) hstack) hunit
      (hcall i (Host.instruction?_eq_some_iff.2 ⟨v, hv, hi⟩))
  | none =>
    rw [fetch_changed hunseen hb]
    generalize m.fetch f = m', fetch_executed hb = he
    cases he with
    | goesOn _ _ hunit' =>
      exact .runs (rootFrame?_eq_some_iff.2 ⟨hstack, rfl⟩) (hunit'.trans hunit)
    | returns | halts | raises | lost | stuck =>
      exact .ended (isDone_of_not_running hstack nofun) hstack
    | @calls name unit dest args hf hdest =>
      obtain ⟨i, hi, -⟩ := hdest
      have hne : unit ≠ k := fun heq => hfree name (heq ▸ hf)
      rw [← enter_changed]
      show Follows u k _
        (((m.changed k CodeUnit.finalize).push (.call f dest)).enter unit _ args f.receiver)
      rw [push_eq_above, push_eq_above, enter_above, enter_above]
      exact .call (Avoids.enter (m := { m with stack := [] }) havoids hne _ args _)
        (congrArg (.call f dest :: ·) hstack) hunit (hcall i hi)

/-- A call that waits at the bottom does not change which host loads. -/
theorem loader_above_call (z : Machine) (f : Frame) (dest : UInt8) :
    (z.above [.call f dest]).loader = z.loader := by
  obtain ⟨host, world, control, stack⟩ := z
  show loaderOf host (stack ++ [.call f dest]) = loaderOf host stack
  induction stack with
  | nil => rfl
  | cons a stack ih =>
    cases a with
    | compilation c => rfl
    | call f' dest' => exact ih
    | load l => exact ih

/-- What the first frame has called has come to its end. -/
theorem Follows.resume {z : Machine} {f : Frame} {dest : UInt8} (hz : z.stack = [])
    (hdone : z.isDone = true) (hstuck : z.control ≠ .stuck) (hunit : f.unit = k)
    (hunseen : z.Unseen k CodeUnit.finalize f) :
    Follows u k (z.above [.call f dest]).step
      ((z.changed k CodeUnit.finalize).above [.call f dest]).step := by
  have hraise : ∀ e, Follows u k (z.raiseIn f e) ((z.changed k CodeUnit.finalize).raiseIn f e) := by
    intro e
    rw [hunseen.raiseIn]
    exact .ended (isDone_of_not_running hz nofun) hz
  have hreturn : ∀ value, Follows u k (z.resume f dest value)
      ((z.changed k CodeUnit.finalize).resume f dest value) := by
    intro value
    rw [resume_changed]
    unfold Machine.resume assign? Frame.write?
    split
    · exact .ended (isDone_of_not_running hz nofun) hz
    · split
      · exact .runs (rootFrame?_eq_some_iff.2 ⟨hz, rfl⟩) hunit
      · exact .ended (isDone_of_not_running hz nofun) hz
  obtain ⟨host, world, control, stack⟩ := z
  obtain rfl : stack = [] := hz
  cases control with
  | running f' => cases hdone
  | stuck => exact absurd rfl hstuck
  | returning value => exact hreturn value
  | raising e => exact hraise e
  | failing e => exact hraise e.toException

/-- One step while the first frame waits. -/
theorem Follows.wait {z z' : Machine} {f : Frame} {dest : UInt8}
    (hz : Changes k CodeUnit.finalize z z') (hunit : f.unit = k)
    (hposition : f.position + 1 < u.instructions.length) (hu : z.loader.units[k]? = some u)
    (hhalt : u.EndsInHalt) (hlines : u.lines.length = u.instructions.length)
    (hfree : ∀ name, z.loader.functions.get? name ≠ some k) :
    Follows u k (z.above [.call f dest]).step (z'.above [.call f dest]).step := by
  cases hdone : z.isDone with
  | false =>
    rw [step_above z _ hdone, step_above z' _ (hz.isDone.trans hdone)]
    exact .waits (hz.step hfree) hunit hposition
  | true =>
    by_cases hstuck : z.control = .stuck
    · rw [step_of_stuck hstuck, step_of_stuck (hz.control.trans hstuck)]
      exact .waits hz hunit hposition
    · obtain ⟨hstack, rfl⟩ := hz.eq_changed hdone hstuck
      rw [loader_of_stack hstack] at hu
      refine Follows.resume hstack hdone hstuck hunit (unseen_finalize hu hhalt hlines hunit ?_ ?_)
      · exact Nat.ne_of_lt hposition
      · exact Nat.ne_of_lt (Nat.lt_of_succ_lt hposition)

/-- One step of both, as long as the first frame has not come to the end of its unit. -/
theorem Follows.step (h : Follows u k m m') (hu : m.loader.units[k]? = some u)
    (hhalt : u.EndsInHalt) (hlines : u.lines.length = u.instructions.length)
    (hfree : ∀ name, m.loader.functions.get? name ≠ some k) (hnot : ¬ m.ComesToEnd u) :
    Follows u k m.step m'.step := by
  cases h with
  | runs hframe hunit =>
    rw [loader_of_stack (rootFrame?_eq_some_iff.1 hframe).1] at hu hfree
    exact Follows.fetch hframe hunit hu hhalt hlines hfree hnot
  | waits hz hunit hposition =>
    rw [loader_above_call] at hu hfree
    exact Follows.wait hz hunit hposition hu hhalt hlines hfree
  | ended hdone hstack =>
    have hdone' : (m.changed k CodeUnit.finalize).isDone = true := hdone
    rw [step_of_isDone hdone, step_of_isDone hdone']
    exact .ended hdone hstack

/-- And so any number of steps. -/
theorem Follows.run (h : Follows u k m m') (hu : ∀ n, (m.run n).loader.units[k]? = some u)
    (hhalt : u.EndsInHalt) (hlines : u.lines.length = u.instructions.length)
    (hfree : ∀ n name, (m.run n).loader.functions.get? name ≠ some k) {n : Nat}
    (hnot : ∀ j < n, ¬ (m.run j).ComesToEnd u) : Follows u k (m.run n) (m'.run n) := by
  induction n with
  | zero => exact h
  | succ n ih =>
    rw [run_succ', run_succ']
    exact (ih fun j hj => hnot j (Nat.lt_succ_of_lt hj)).step (hu n) hhalt hlines (hfree n)
      (hnot n (Nat.lt_succ_self n))

/-! ### At the end of the unit -/

theorem fetch_loadNil {f : Frame} (hu : m.host.units[f.unit]? = some u)
    (hi : u.instructions[f.position]? = some { opcode := .loadNil }) :
    ∃ f', m.fetch f = m.continueWith f' ∧ f'.unit = f.unit ∧ f'.position = f.position + 1
      ∧ f'.read? 0 = some .nil := by
  refine ⟨{ f with registers := f.registers.set 0 .nil (by decide) }.advance, ?_, rfl, rfl, ?_⟩
  · simp only [fetch, hu, hi, execute?]
    rfl
  · exact (Vector.getElem?_eq_getElem (by decide)).trans
      (congrArg some (Vector.getElem_set_self (by decide)))

theorem fetch_ret {f : Frame} {value : Value} (hu : m.host.units[f.unit]? = some u)
    (hi : u.instructions[f.position]? = some { opcode := .ret }) (hv : f.read? 0 = some value) :
    m.fetch f = m.returnFrom value := by
  simp only [fetch, hu, hi, execute?, hv]
  rfl

section

variable {f : Frame} (hc : m.control = .running f) (hunit : f.unit = k)
  (hu : m.host.units[k]? = some u) (hhalt : u.EndsInHalt)

include hc hunit hu

/-- The last halt. -/
theorem step_lastHalt (hhalt : u.EndsInHalt) (hlast : f.position + 1 = u.instructions.length) :
    m.step = { m with host := { m.host with halted := true } }.returnFrom .nil := by
  obtain ⟨i, hi, hop⟩ := CodeUnit.getElem?_of_endsInHalt hhalt hlast
  rw [step_of_running hc]
  simp only [fetch, hunit, hu, hi, execute?, hop, Option.getD_some]

/-- What stands in its place returns nil, too, and does nothing else. -/
theorem step_step_finalized (hhalt : u.EndsInHalt)
    (hlast : f.position + 1 = u.instructions.length) :
    (m.changed k CodeUnit.finalize).step.step
      = (m.returnFrom .nil).changed k CodeUnit.finalize := by
  obtain ⟨hnil, hret⟩ := CodeUnit.getElem?_finalize hhalt hlast
  have hc' : (m.changed k CodeUnit.finalize).control = .running f := hc
  obtain ⟨f', hfetch, hunit', hposition, hvalue⟩ := fetch_loadNil (units_finalized hunit hu) hnil
  rw [← hposition] at hret
  have hreturn := fetch_ret (m := (m.changed k CodeUnit.finalize).continueWith f')
    (units_finalized (hunit'.trans hunit) hu) hret hvalue
  rw [step_of_running hc', hfetch, step_of_running rfl, hreturn]
  rfl

/-- Behind the last instruction the unit is over. -/
theorem step_behind (hend : f.position = u.instructions.length) : m.step = m.returnFrom .nil := by
  have hnone : u.instructions[f.position]? = none :=
    List.getElem?_eq_none (Nat.le_of_eq hend.symm)
  rw [step_of_running hc]
  simp only [fetch, hunit, hu, hnone]

/-- The finalized unit has its `ret` there. -/
theorem step_finalized_behind (hhalt : u.EndsInHalt) (hend : f.position = u.instructions.length) :
    ∃ value, f.read? 0 = some value ∧ (m.changed k CodeUnit.finalize).step
      = (m.returnFrom value).changed k CodeUnit.finalize := by
  have hlast : f.position - 1 + 1 = u.instructions.length := by
    rw [hend]
    exact Nat.sub_add_cancel hhalt.length_pos
  have hret := (CodeUnit.getElem?_finalize hhalt hlast).2
  rw [hlast, ← hend] at hret
  obtain ⟨value, hvalue⟩ := f.exists_read? (r := 0) (by decide)
  have hc' : (m.changed k CodeUnit.finalize).control = .running f := hc
  refine ⟨value, hvalue, ?_⟩
  rw [step_of_running hc']
  exact (fetch_ret (units_finalized hunit hu) hret hvalue).trans rfl

end

/-- What the invocation of the finalized unit, `m'`, has come to when the one of the unit as it was,
`m`, has ended after `n` steps. -/
inductive FinalizedEnd (u : CodeUnit) (k : Nat) (m m' : Nat → Machine) (n : Nat) : Prop
  /-- The frame has ended before it came to the last halt or behind it: result, host and world are
  the same, but for the unit. -/
  | same (hnot : ∀ j < n, ¬ (m j).ComesToEnd u)
      (h : m' n = (m n).changed k CodeUnit.finalize) : FinalizedEnd u k m m' n
  /-- The frame has executed the last halt: the finalized one returns nil, too, and halts nothing.
  -/
  | halts {j : Nat} {f : Frame} (hj : j < n) (hframe : (m j).rootFrame? = some f)
      (hlast : f.position + 1 = u.instructions.length)
      (h : m n = { m j with host := { (m j).host with halted := true } }.returnFrom .nil)
      (h' : m' (n + 1) = ((m j).returnFrom .nil).changed k CodeUnit.finalize) :
      FinalizedEnd u k m m' n
  /-- The frame has jumped behind the last halt: it has returned nil there, and the finalized one
  its first register. -/
  | behind {j : Nat} {f : Frame} {value : Value} (hj : j < n) (hframe : (m j).rootFrame? = some f)
      (hend : f.position = u.instructions.length) (h : m n = (m j).returnFrom .nil)
      (hvalue : f.read? 0 = some value)
      (h' : m' n = ((m j).returnFrom value).changed k CodeUnit.finalize) : FinalizedEnd u k m m' n

/-- Where the first frame has come to the end of its unit for the first time, both run. -/
theorem Follows.of_comesToEnd (h : Follows u k m m') (hend : m.ComesToEnd u) :
    m' = m.changed k CodeUnit.finalize ∧ ∃ f, m.rootFrame? = some f ∧ f.unit = k
      ∧ (f.position + 1 = u.instructions.length ∨ f.position = u.instructions.length) := by
  obtain ⟨f, hframe, hposition⟩ := hend
  obtain ⟨hstack, hc⟩ := rootFrame?_eq_some_iff.1 hframe
  cases h with
  | runs hframe' hunit =>
    cases hframe.symm.trans hframe'
    exact ⟨rfl, f, hframe, hunit, hposition⟩
  | waits => exact absurd hstack (stack_above_ne_nil _ _ _)
  | ended hdone =>
    rw [isDone, hc] at hdone
    cases hdone

/-- Where nothing waits for the first frame, neither does anything for the one of the finalized
unit. -/
theorem Follows.of_stack (h : Follows u k m m') (hstack : m.stack = []) :
    m' = m.changed k CodeUnit.finalize := by
  cases h with
  | runs | ended => rfl
  | waits => exact absurd hstack (stack_above_ne_nil _ _ _)

theorem follows_enter (hstack : m.stack = []) (scope : Scope) (args : List Value)
    (receiver : Value) :
    Follows u k (m.enter k scope args receiver)
      ((m.changed k CodeUnit.finalize).enter k scope args receiver) := by
  rw [enter_changed]
  unfold enter
  split
  · exact .ended (isDone_of_not_running hstack nofun) hstack
  · exact .runs (rootFrame?_eq_some_iff.2 ⟨hstack, rfl⟩) rfl

/-- Once a machine has come to its end, it is there. -/
theorem run_eq_of_run {m x : Machine} {j n : Nat} (hx : m.run j = x) (hdone : x.isDone = true)
    (h : j ≤ n) : m.run n = x := by
  rw [← Nat.add_sub_cancel' h, run_add, hx, run_of_isDone hdone]

theorem exists_first {P : Nat → Prop} {n : Nat} (h : ∃ j < n, P j) :
    ∃ j < n, P j ∧ ∀ i < j, ¬ P i := by
  classical
  obtain ⟨hlt, hj⟩ := Nat.find_spec h
  exact ⟨Nat.find h, hlt, hj, fun i hi hp => Nat.find_min h hi ⟨Nat.lt_trans hi hlt, hp⟩⟩

end Machine

/-- Finalizing a unit that no function is bound to changes what becomes of an invocation of it in
two cases only: a frame that executes the last halt does not halt the host, and a frame that has
jumped behind the last halt returns its first register instead of nil. -/
theorem finalized_end (h : Host) (w : World) {k : Nat} {u : CodeUnit} (hk : h.units[k]? = some u)
    (hhalt : u.EndsInHalt) (hlines : u.lines.length = u.instructions.length) (scope : Scope)
    (args : List Value) (receiver : Value)
    (hfree : ∀ n name, (((idle h w).enter k scope args receiver).run n).loader.functions.get? name
      ≠ some k) (n : Nat) :
    let m := fun n => ((idle h w).enter k scope args receiver).run n
    let m' := fun n =>
      ((idle (h.modifyUnit k CodeUnit.finalize) w).enter k scope args receiver).run n
    (m n).isDone = true → (m n).stack = [] → FinalizedEnd u k m m' n := by
  intro m m' hdone hstack
  have hstart : ((idle h w).enter k scope args receiver).stack = [] := stack_enter ..
  have hunits : ((idle h w).enter k scope args receiver).host.units[k]? = some u := by
    rw [units_enter]
    exact hk
  have hu : ∀ n, (m n).loader.units[k]? = some u := getElem?_units_run hstart hunits
  have hfollows : ∀ n, (∀ j < n, ¬ (m j).ComesToEnd u) → Follows u k (m n) (m' n) := by
    intro n hnot
    have henter : Follows u k ((idle h w).enter k scope args receiver)
        ((idle (h.modifyUnit k CodeUnit.finalize) w).enter k scope args receiver) :=
      follows_enter (m := idle h w) rfl scope args receiver
    exact henter.run hu hhalt hlines hfree hnot
  by_cases hend : ∃ j < n, (m j).ComesToEnd u
  · -- the first moment at which the frame has come to the end of its unit
    obtain ⟨j, hj, hcomes, hfirst⟩ := exists_first hend
    obtain ⟨hm', f, hframe, hunit, hposition⟩ := (hfollows j hfirst).of_comesToEnd hcomes
    obtain ⟨hstackj, hc⟩ := rootFrame?_eq_some_iff.1 hframe
    have huj := hu j
    rw [loader_of_stack hstackj] at huj
    rcases hposition with hlast | hbehind
    · refine .halts hj hframe hlast ?_ ?_
      · refine run_eq_of_run ?_ (isDone_of_not_running hstackj nofun) hj
        rw [run_succ']
        exact step_lastHalt hc hunit huj hhalt hlast
      · refine run_eq_of_run ?_ (isDone_of_not_running hstackj nofun) (Nat.succ_le_succ hj)
        rw [run_succ', run_succ', show Machine.run j _ = _ from hm']
        exact step_step_finalized hc hunit huj hhalt hlast
    · obtain ⟨value, hvalue, hstep⟩ := step_finalized_behind hc hunit huj hhalt hbehind
      refine .behind hj hframe hbehind ?_ hvalue ?_
      · refine run_eq_of_run ?_ (isDone_of_not_running hstackj nofun) hj
        rw [run_succ']
        exact step_behind hc hunit huj hbehind
      · refine run_eq_of_run ?_ (isDone_of_not_running hstackj nofun) hj
        rw [run_succ', show Machine.run j _ = _ from hm']
        exact hstep
  · have hnot : ∀ j < n, ¬ (m j).ComesToEnd u := fun j hj hc => hend ⟨j, hj, hc⟩
    exact .same hnot ((hfollows n hnot).of_stack hstack)

/-- The unit of a source that jumps over a halt to a label at the very end. -/
def astray : CodeUnit where
  filename := some "a.nl"
  instructions := [{ opcode := .loadInt, imm := 5 }, { opcode := .jump, imm := 3 },
    { opcode := .halt }]
  lines := [1, 2, 3]

/-- No function is ever bound in an invocation that comes to its end without one. -/
theorem get?_functions_run {m : Machine} {n : Nat} (hdone : (m.run n).isDone = true)
    (h : ∀ j ≤ n, (m.run j).loader.functions = {}) (k j : Nat) (name : String) :
    (m.run j).loader.functions.get? name ≠ some k := by
  rw [run_of_isDone_run (P := fun x => x.loader.functions = {}) hdone h j]
  exact nofun

/-- It runs off its end and returns nil; once it is finalized it returns 5. -/
theorem finalized_differs :
    let m := fun n => ((idle { units := [astray] } {}).enter 0 .topLevel [] .main).run n
    let m' := fun n =>
      ((idle { units := [astray.finalize] } {}).enter 0 .topLevel [] .main).run n
    Assembly.assemble "int r0, 5\njmp end\nhalt\nend:\n" "a.nl" = .ok [astray]
      ∧ astray.EndsInHalt ∧ astray.lines.length = astray.instructions.length
      ∧ (∀ j name, (m j).loader.functions.get? name ≠ some 0)
      ∧ (m 2).rootFrame?.map (·.position) = some 3
      ∧ (m 3).stack = [] ∧ (m 3).control = .returning .nil
      ∧ (m' 3).stack = [] ∧ (m' 3).control = .returning (.int 5) := by
  refine ⟨by decide +kernel, by decide, rfl, get?_functions_run (n := 3) ?_ ?_ 0, ?_⟩
  · decide +kernel
  · decide +kernel
  · decide +kernel

/-- A unit that comes to its last halt: once it is finalized it halts nothing. -/
theorem finalized_end_halt :
    let u : CodeUnit :=
      { instructions := [{ opcode := .nop }, { opcode := .halt }], lines := [1, 2] }
    let m := fun n => ((idle { units := [u] } {}).enter 0 .topLevel [] .main).run n
    let m' := fun n => ((idle { units := [u.finalize] } {}).enter 0 .topLevel [] .main).run n
    u.EndsInHalt ∧ (m 2).host.halted = true ∧ (m' 3).host.halted = false
      ∧ FinalizedEnd u 0 m m' 2 := by
  intro u m m'
  have hend : (m 2).isDone = true ∧ (m 2).stack = [] := by decide +kernel
  have hfree : ∀ j name, (m j).loader.functions.get? name ≠ some 0 :=
    get?_functions_run (n := 2) hend.1 (by decide +kernel) 0
  refine ⟨by decide, by decide +kernel, by decide +kernel, ?_⟩
  exact finalized_end { units := [u] } {} rfl (by decide) rfl .topLevel [] .main hfree 2 hend.1
    hend.2

end ModuleHost
