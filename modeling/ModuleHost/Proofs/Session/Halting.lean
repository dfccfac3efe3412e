import ModuleHost.Proofs.FileTree.Following
import ModuleHost.Proofs.Machine.Unwinding

/-!
# What a halt ends

A halt stops the host, however deep in calls and loads the frame is that executes it.  No frame runs
after it; every frame that waits returns nil, every load ends well and records its path, and the
invocation returns nil, while the host stays as it was but for what the frames and the loads give
back (`halt_ends_invocation`).  The path that a load records is the one under which `require` has
started it (`require_waitsUnder`), also when a source has been compiled meanwhile
(`finishCompilation_waits`).
-/

namespace ModuleHost

open Machine

/-! ### Loads that wait -/

/-- A load that has been started has failed at once, or something waits that belongs to the same
key. -/
def Machine.WaitsUnder (m : Machine) (key? : Option String) (m' : Machine) : Prop :=
  ((∃ e, m'.control = .failing e) ∧ m'.stack = m.stack)
    ∨ ∃ a, m'.stack = a :: m.stack ∧ a.key? = key?

theorem Machine.Streamed.waits {m m' : Machine} {l : Load} (h : Streamed m l m') :
    ((∃ e, m'.control = .failing e) ∧ m'.stack = m.stack) ∨ m'.stack = .load l :: m.stack := by
  cases h with
  | failed =>
    rw [failLoad_eq]
    exact Or.inl ⟨⟨_, rfl⟩, rfl⟩
  | entered => exact Or.inr (stack_enter _ _ _ _ _)

theorem Machine.Streamed.waitsUnder {m m' : Machine} {l : Load} (h : Streamed m l m') :
    m.WaitsUnder l.key m' :=
  h.waits.imp_right fun hstack => ⟨.load l, hstack, rfl⟩

theorem Machine.Dispatched.waitsUnder {m m' : Machine} {l : Load} (h : Dispatched m l m') :
    m.WaitsUnder l.key m' := by
  cases h with
  | failed hp =>
    rw [failLoad_eq]
    exact Or.inl ⟨⟨_, rfl⟩, hp.stack⟩
  | streamed hp hs =>
    have hwaits := hs.waitsUnder
    rwa [WaitsUnder, hp.stack, hp.key] at hwaits
  | @compiles m₁ l₁ path units hp =>
    refine Or.inr ⟨.compilation { load := l₁, path, outer := m.host }, ?_, hp.key⟩
    exact (stack_enter _ _ _ _ _).trans (congrArg _ hp.stack)

/-- Requiring a file that is not known yet starts a load under its path. -/
theorem Machine.require_waitsUnder {m : Machine} {name path : String}
    (hr : m.world.resolve m.host.searchPath name = .ok path)
    (hf : m.host.ledger.state path = .fresh) : m.WaitsUnder (some path) (m.require name) := by
  rw [require_of_fresh hr hf]
  exact (dispatch_cases (m.mapLedger (·.markLoading path)) _ path).waitsUnder

/-- When the units have been compiled, the load that goes on is the one that has started the
compilation. -/
theorem Machine.finishCompilation_waits (m : Machine) (c : Compilation) :
    ((∃ e, (m.finishCompilation c).control = .failing e)
        ∧ (m.finishCompilation c).stack = m.stack)
      ∨ (m.finishCompilation c).stack = .load c.load :: m.stack :=
  (loadCompiledUnits_cases { m with host := c.outer } c.load c.path m.host.units).waits

/-! ### What comes of a halt -/

def Machine.Halts (m : Machine) : Prop :=
  ∃ f i, m.control = .running f ∧ m.host.instruction? f = some i ∧ i.opcode = .halt

/-- What comes of a halt that the machine `m` executes, where `after j` is the machine as it is `j`
steps after the halt. -/
structure Machine.EndsByHalt (m : Machine) (after : Nat → Machine) : Prop where
  /-- No instruction is executed any more. -/
  still : ∀ j f, (after j).control ≠ .running f
  /-- Units, globals, functions, output and search path are those of the halt, as is all else but
  what the end of a frame or of a load gives back. -/
  host : ∀ j, (after j).host = { m.host with
    halted := true
    depth := (after j).host.depth
    arena := (after j).host.arena
    ledger := (after j).host.ledger }
  /-- What waits is taken off, one activation with each step. -/
  waiting : ∀ j, (after j).stack = m.stack.drop j
  /-- The frame that has executed the halt returns nil, -/
  frame : (after 0).control = .returning .nil
  /-- and so does every frame that waits. -/
  frames : ∀ j f dest, m.stack[j]? = some (.call f dest) → (after (j + 1)).control = .returning .nil
  /-- Every load ends well; its path is recorded, if the module was required. -/
  loads : ∀ j l, m.stack[j]? = some (.load l) →
    (after (j + 1)).control = .returning (.bool true)
      ∧ ∀ key, l.key = some key → ∀ k, j < k → key ∈ (after k).host.ledger.loaded.entries
  /-- The invocation returns nil. -/
  result : (after m.stack.length).isDone = true
    ∧ (after m.stack.length).value? = some (.ok .nil)

variable {m : Machine}

/-- The step that executes a halt. -/
theorem Machine.Halts.step (hm : m.Halts) :
    m.step = { m with host := { m.host with halted := true } }.returnFrom .nil := by
  obtain ⟨f, i, hf, hi, hop⟩ := hm
  obtain ⟨u, hu, hi⟩ := Host.instruction?_eq_some_iff.1 hi
  have hstep : m.step = m.fetch f := by rw [Machine.step, hf]
  rw [hstep, fetch, hu]
  dsimp only
  rw [hi]
  dsimp only
  rw [execute?, hop]
  rfl

theorem Ledger.mem_completed (l : Ledger) (key : String) :
    key ∈ (l.completed (some key)).loaded.entries :=
  (PathSet.mem_insert l.loaded key key).2 (Or.inr rfl)

/-- What was recorded stays recorded. -/
theorem Machine.loaded_prefix_run {j k : Nat} (ho : Outermost (m.run j).stack)
    (ho' : Outermost (m.run k).stack) (hjk : j ≤ k) :
    (m.run j).host.ledger.loaded.entries <+: (m.run k).host.ledger.loaded.entries := by
  have hgrown := (growsTo_run (secludedIn_of_outermost _ ho) (k - j)).loaded
  rw [← run_add, Nat.add_sub_cancel' hjk] at hgrown
  rwa [loader, loader, loaderOf_of_outermost _ ho, loaderOf_of_outermost _ ho'] at hgrown

theorem Machine.Outermost.drop {stack : List Activation} (ho : Outermost stack) (j : Nat) :
    Outermost (stack.drop j) := by
  induction stack generalizing j with
  | nil => rwa [List.drop_nil]
  | cons a stack ih =>
    cases j with
    | zero => exact ho
    | succ j =>
      cases a with
      | compilation c => exact ho.elim
      | call f dest => exact ih ho j
      | load l => exact ih ho j

/-- The outermost frame of a halted host returns nil. -/
theorem Machine.Stopped.value?_run {h : Host} {x : Machine} (hx : x.Stopped h)
    (ho : Outermost x.stack) (hg : Grounded x.stack) (hc : x.control = .returning .nil) :
    (x.run x.stack.length).isDone = true ∧ (x.run x.stack.length).value? = some (.ok .nil) := by
  obtain ⟨hstopped, hstack⟩ := hx.run ho x.stack.length
  refine ⟨hstopped.isDone (hstack.trans List.drop_length), ?_⟩
  rw [value?]
  cases hlast : x.stack.getLast? with
  | none =>
    rw [List.getLast?_eq_none_iff.1 hlast, List.length_nil, run_zero, hc]
  | some a =>
    have hpositive : 0 < x.stack.length := by
      refine List.length_pos_of_ne_nil fun hnil => ?_
      rw [hnil] at hlast
      cases hlast
    rw [List.getLast?_eq_getElem?] at hlast
    have hcontrol := (hx.handOn ho hlast).1
    rw [Nat.sub_add_cancel hpositive] at hcontrol
    have hframe := hg a (List.getLast?_eq_getElem? ▸ hlast)
    cases a with
    | load l => cases hframe
    | compilation c => cases hframe
    | call f dest => rw [hcontrol]; rfl

/-- When a frame of the host, at whatever depth, executes a halt, nothing is executed any more and
everything that waits comes to its end.  (What is being compiled runs in a host of its own; a frame
there belongs to the invocation that was made in that host.) -/
theorem halt_ends_invocation (h : Host) (w : World) (unit : Nat) (scope : Scope)
    (args : List Value) (receiver : Value) (n : Nat)
    (hm : m = ((idle h w).enter unit scope args receiver).run n) (hhalts : m.Halts)
    (ho : Outermost m.stack) : m.EndsByHalt fun j => m.step.run j := by
  have hgrounded : Grounded m.stack := by
    rw [hm]
    refine run_induction (P := fun x => Grounded x.stack) (fun _ => grounded_step) ?_ n
    rw [stack_enter]
    exact grounded_nil
  have hstep := hhalts.step
  have hstopped : m.step.Stopped m.host := by
    rw [hstep]
    exact ⟨⟨.nil, rfl⟩, rfl⟩
  have hcontrol : m.step.control = .returning .nil := by
    rw [hstep]
    rfl
  have hstack : m.step.stack = m.stack := by
    rw [hstep]
    rfl
  rw [← hstack] at ho hgrounded
  have hrun := hstopped.run ho
  constructor
  · intro j f hf
    obtain ⟨value, hvalue⟩ := (hrun j).1.returning
    rw [hvalue] at hf
    cases hf
  · exact fun j => (hrun j).1.host
  · rw [← hstack]
    exact fun j => (hrun j).2
  · exact hcontrol
  · rw [← hstack]
    exact fun j f dest hj => (hstopped.handOn ho hj).1
  · rw [← hstack]
    intro j l hj
    obtain ⟨hreturn, hledger⟩ := hstopped.handOn ho hj
    refine ⟨hreturn, fun key hkey k hk => ?_⟩
    have hout : ∀ k, Outermost (m.step.run k).stack := by
      intro k
      rw [(hrun k).2]
      exact ho.drop k
    refine (loaded_prefix_run (hout (j + 1)) (hout k) hk).subset ?_
    rw [hledger, Activation.key?, hkey]
    exact Ledger.mem_completed _ key
  · rw [← hstack]
    exact hstopped.value?_run ho hgrounded hcontrol

/-- The bytecode of a module that halts in its first instruction. -/
def stoppingModule : List UInt8 :=
  (Bytecode.Field.ofUnits [{ instructions := [{ opcode := .halt }, { opcode := .nop }] }]).flatMap
    Bytecode.Field.bytes

def stoppedUnit : CodeUnit where
  instructions := [{ opcode := .loadStr, dest := 1 },
    { opcode := .call, src1 := 1, mode := 1, imm := 1 }, { opcode := .ret }]
  symbols := ["/a.nlb", "require"]

/-- The module halts while it is required: its frame and the invoked one return nil, and the path of
the module is recorded. -/
theorem halt_ends_invocation_required :
    ∃ m : Machine, m.Halts ∧ Outermost m.stack ∧ m.stack.length = 2
      ∧ (m.EndsByHalt fun j => m.step.run j)
      ∧ ∀ k, 0 < k → "/a.nlb" ∈ (m.step.run k).host.ledger.loaded.entries := by
  have hname : Path.IsName "a.nlb" := ⟨by decide, by decide, by decide, by decide, by decide⟩
  have hopen := FileTree.openEntry_single hname stoppingModule []
  let h : Host := { units := [stoppedUnit] }
  let w : World := { files := .single "a.nlb" stoppingModule }
  let f : Frame := Frame.advance { Frame.start 0 .topLevel [] .main with
    registers := (Frame.initialRegisters []).set 1 (.str "/a.nlb") }
  obtain ⟨m, hm⟩ : ∃ m, m = (idle h w).enter 0 .topLevel [] .main := ⟨_, rfl⟩
  -- the second instruction requires the module
  have hrunning : (m.run 1).control = .running f := by
    rw [hm]
    decide +kernel
  have hcall : (m.run 1).builtinCall? f = some (0, .require, [.str "/a.nlb"]) := by
    rw [hm]
    decide +kernel
  have hrequired : m.run 2 = ((m.run 1).push (.call f 0)).require "/a.nlb" := by
    rw [run_succ', step, hrunning]
    exact fetch_of_builtinCall? hcall
  rw [require_bytecode (by decide) (by rw [hm]; exact hopen) (by decide +kernel)
    (by rw [hm]; decide +kernel)] at hrequired
  have hhalts : (m.run 2).Halts := by
    refine ⟨Frame.start 1 .topLevel [] .main, { opcode := .halt }, ?_, ?_, rfl⟩ <;>
    · rw [hrequired, hm]
      decide +kernel
  have hstack : (m.run 2).stack = [.load { arenaMark := 1, key := some "/a.nlb" }, .call f 0] := by
    rw [hrequired, hm]
    decide +kernel
  have ho : Outermost (m.run 2).stack := by
    rw [hstack]
    trivial
  have hlength : (m.run 2).stack.length = 2 := by
    rw [hstack]
    rfl
  have hends := halt_ends_invocation h w 0 .topLevel [] .main 2 (by rw [hm]) hhalts ho
  have hload : (m.run 2).stack[0]? = some (.load { arenaMark := 1, key := some "/a.nlb" }) := by
    rw [hstack]
    rfl
  exact ⟨m.run 2, hhalts, ho, hlength, hends, (hends.loads 0 _ hload).2 "/a.nlb" rfl⟩

end ModuleHost
