import ModuleHost.Proofs.Machine.Origins

/-!
# Backtraces

An exception that an invocation ends with has come up at one moment.  Its backtrace has an entry
for each frame that was executing an instruction at this moment, the innermost first, whether the
frames called each other or loaded modules, and it keeps its class and its message on the way.  The
depth of the host is never above the limit, and in the end it is what it was (`invoke_backtrace`).
-/

namespace ModuleHost

namespace Machine

/-- The machine of an invocation: first nothing runs, then the frame has been entered, then each
machine is one step further. -/
def invocation (h : Host) (w : World) (unit : Nat) (scope : Scope) (args : List Value)
    (receiver : Value) : Nat → Machine
  | 0 => idle h w
  | k + 1 => ((idle h w).enter unit scope args receiver).run k

/-- The exception `x`, with which an invocation has ended that was made in the host `first`, is the
one that came up between `m` and `m'`. -/
inductive Surfaced (first : Host) (m m' : Machine) (x : Exception) : Prop
  /-- The exception is new.  Its entries are those of the frames that were executing an instruction;
  there are as many as may be active, if one frame more was the reason. -/
  | created {e : Exception} (hraised : m'.value? = some (.error e))
      (hx : x = { e with backtrace := entries m.host.units m.executing })
      (hlimit : x.IsOverflow → x.backtrace.length = Host.maxDepth - first.depth)
  /-- The exception was pending before the invocation. -/
  | taken {e : Exception} (hfirst : first.pending = some e) (hpending : m.host.pending = some e)
      (hnone : m'.host.pending = none)
      (hx : x = { e with backtrace := e.backtrace ++ entries m.host.units m.executing })

variable {h : Host} {w : World} {unit : Nat} {scope : Scope} {args : List Value} {receiver : Value}
  {m m' : Machine} {e x : Exception}

theorem Quiet.exists_surfacing {m : Nat → Machine} (hq : (m 0).Quiet) {n : Nat}
    (hn : ¬ (m n).Quiet) : ∃ k < n, (m k).Quiet ∧ ¬ (m (k + 1)).Quiet := by
  induction n with
  | zero => exact absurd hq hn
  | succ n ih =>
    by_cases hlast : (m n).Quiet
    · exact ⟨n, Nat.lt_succ_self n, hlast, hn⟩
    · obtain ⟨k, hk, hrest⟩ := ih hlast
      exact ⟨k, Nat.lt_succ_of_lt hk, hrest⟩

theorem not_quiet_iff : ¬ m.Quiet ↔ ∃ e, m.value? = some (.error e) := by
  rw [Quiet, not_forall_not]

theorem stack_of_isDone (hdone : m.isDone = true) (hvalue : m.value?.isSome = true) :
    m.stack = [] := by
  obtain ⟨host, world, control, stack⟩ := m
  cases control with
  | running f => cases hdone
  | stuck => cases hvalue
  | returning v | raising e | failing e => exact List.isEmpty_iff.1 hdone

theorem isDone_of_stack (hstack : m.stack = []) (hvalue : m.value?.isSome = true) :
    m.isDone = true := by
  obtain ⟨host, world, control, stack⟩ := m
  cases control with
  | running f | stuck => cases hvalue
  | returning v | raising e | failing e => exact List.isEmpty_iff.2 hstack

theorem invocation_add (k j : Nat) :
    invocation h w unit scope args receiver (k + 1 + j)
      = (invocation h w unit scope args receiver (k + 1)).run j := by
  rw [Nat.add_right_comm]
  exact run_add _ k j

theorem nested_invocation (hc : h.compiler = .onRequest) (hd : h.depth ≤ Host.maxDepth) (k : Nat) :
    (invocation h w unit scope args receiver k).Nested h := by
  cases k with
  | zero => exact nested_idle h w hc hd
  | succ k => exact (nested_enter (nested_idle h w hc hd) unit scope args receiver).run k

/-- In an invocation, too, an exception comes up in one step. -/
theorem arises_invocation (hc : h.compiler = .onRequest) (hd : h.depth ≤ Host.maxDepth) {k : Nat}
    (hq : (invocation h w unit scope args receiver k).Quiet)
    (he : (invocation h w unit scope args receiver (k + 1)).value? = some (.error e)) :
    Arises (Host.maxDepth - h.depth) (invocation h w unit scope args receiver k)
      (invocation h w unit scope args receiver (k + 1)) e := by
  have hn : (invocation h w unit scope args receiver k).Nested h := nested_invocation hc hd k
  cases k with
  | zero => exact arises_enter hn rfl rfl he
  | succ k =>
    rw [invocation_add k 1, run_succ, run_zero] at he ⊢
    exact hn.arises hq he

/-- What comes up takes everything down, and is what the run ends with. -/
theorem Arises.surfaced {first : Host} {j : Nat}
    (ha : Arises (Host.maxDepth - first.depth) m m' e) (he : m'.value? = some (.error e))
    (hm : first.Nests m.host m.stack m.control.frames) (ho : Outermost m'.stack)
    (hdone : (m'.run j).isDone = true) (hx : (m'.run j).value? = some (.error x)) :
    Surfaced first m m' x := by
  obtain ⟨hstack, hvalue⟩ := raising_run he ho
  have hend : (m'.run m'.stack.length).isDone = true := by
    refine isDone_of_stack hstack ?_
    rw [hvalue]
    rfl
  rw [run_eq_run_of_isDone hdone hend, hvalue, Option.some_inj, Except.error.injEq] at hx
  cases ha with
  | created hentries hlimit =>
    rw [hentries] at hx
    refine .created he hx.symm fun hoverflow => ?_
    rw [← hx] at hoverflow ⊢
    exact (List.length_map _).trans (hlimit hoverflow)
  | taken hpending hnone hentries =>
    rw [hentries] at hx
    refine .taken ?_ hpending hnone hx.symm
    rcases hm.pending with hsame | hgone
    · rw [← hsame, hpending]
    · rw [hgone] at hpending
      cases hpending

end Machine

open Machine

/-- An invocation in a host whose compiler runs nothing, made when not more frames are active than
may be: never are, and in the end as many are active as were before; and if it ends with an
exception, this is one that came up on the way.  (This holds of what is invoked by code, too: what
waits below it changes nothing, as `run_above_cases` shows.) -/
theorem invoke_backtrace {h : Host} (hc : h.compiler = .onRequest) (hd : h.depth ≤ Host.maxDepth)
    (w : World) (unit : Nat) (scope : Scope) (args : List Value) (receiver : Value) (n : Nat) :
    let m := invocation h w unit scope args receiver
    (m n).host.depth ≤ Host.maxDepth
      ∧ ((m n).isDone = true → (m n).value?.isSome = true → (m n).host.depth = h.depth)
      ∧ ∀ x, (m n).isDone = true → (m n).value? = some (.error x) →
          ∃ k < n, (m k).Quiet ∧ Surfaced h (m k) (m (k + 1)) x := by
  intro m
  have hn : ∀ k, (m k).Nested h := nested_invocation hc hd
  refine ⟨(hn n).le, fun hdone hvalue => ?_, fun x hdone hx => ?_⟩
  · have hdepth := (hn n).depth
    rw [stack_of_isDone hdone hvalue, frames_of_value? hvalue] at hdepth
    exact hdepth
  · -- the step in which it comes up is the last one before which nothing is raised
    obtain ⟨k, hk, hq, hraised⟩ := Quiet.exists_surfacing (m := m) (n := n) nofun
      (not_quiet_iff.2 ⟨x, hx⟩)
    obtain ⟨e, he⟩ := not_quiet_iff.1 hraised
    have hrun : m n = (m (k + 1)).run (n - (k + 1)) := by
      rw [← invocation_add, Nat.add_sub_cancel' hk]
    rw [hrun] at hdone hx
    exact ⟨k, hk, hq,
      (arises_invocation hc hd hq he).surfaced he (hn k) (hn (k + 1)).outermost hdone hx⟩

def endlessUnits : List CodeUnit := [
  { filename := some "endless.nl", lines := [1, 4], symbols := ["f"], children := [1]
    instructions := [{ opcode := .define }, { opcode := .call }] },
  { filename := some "endless.nl", lines := [2], symbols := ["f"]
    instructions := [{ opcode := .call }] }]

/-- When 254 frames are active already, two more are entered. -/
theorem invoke_backtrace_endless :
    let h : Host := { units := endlessUnits, depth := 254 }
    let m := invocation h {} 0 .topLevel [] .main
    ∃ x, (m 6).value? = some (.error x) ∧ x.IsOverflow
      ∧ x.backtrace = ["endless.nl:2:in f", "endless.nl:4:in <main>"]
      ∧ (m 6).host.depth = 254 ∧ ∃ k < 6, Surfaced h (m k) (m (k + 1)) x := by
  intro h m
  have hdone : (m 6).isDone = true := by decide +kernel
  obtain ⟨x, hx⟩ : ∃ x : Exception, x = { Exception.stackOverflow with
      backtrace := ["endless.nl:2:in f", "endless.nl:4:in <main>"] } := ⟨_, rfl⟩
  have hvalue : (m 6).value? = some (.error x) := by
    rw [hx]
    decide +kernel
  obtain ⟨-, hdepth, hsurfaced⟩ :=
    invoke_backtrace (h := h) rfl (by decide) {} 0 .topLevel [] .main 6
  obtain ⟨k, hk, -, hs⟩ := hsurfaced x hdone hvalue
  refine ⟨x, hvalue, ?_, ?_, hdepth hdone ?_, k, hk, hs⟩
  · rw [hx]
    rfl
  · rw [hx]
  · rw [hvalue]
    rfl

end ModuleHost
