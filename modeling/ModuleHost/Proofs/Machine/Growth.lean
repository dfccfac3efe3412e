import ModuleHost.Proofs.Machine.Discipline

/-!
# Hosts only grow

Units are put behind those that are there and never touched again, lines are printed behind those
that were printed, names are bound again but never set free.  `Host.GrowsTo` says this of two
moments in the life of a host; every step keeps it (`growsTo_step`), so it holds between any two
moments of a run (`growsTo_run`).  All but the instructions of running code bind no function either
(`Host.Enlarged`).  While something is being compiled the host that counts is the one that waits,
`Machine.loader`.
-/

namespace ModuleHost

/-- The later host `h'` still has all that `h` has: its units, its loaded paths, its search path and
its output stand where they stood, its names are bound, and if it was halted it is. -/
structure Host.GrowsTo (h h' : Host) : Prop where
  units : h.units <+: h'.units
  loaded : h.ledger.loaded.entries <+: h'.ledger.loaded.entries
  searchPath : h.searchPath.dirs <+: h'.searchPath.dirs
  output : h.output <+: h'.output
  globals : ∀ name, (h.globals.get? name).isSome = true → (h'.globals.get? name).isSome = true
  functions : ∀ name, (h.functions.get? name).isSome = true → (h'.functions.get? name).isSome = true
  halted : h.halted = true → h'.halted = true

structure Host.Enlarged (h h' : Host) : Prop extends Host.GrowsTo h h' where
  same : h'.functions = h.functions

theorem Bindings.isSome_get?_set {α : Type} (b : Bindings α) (name : String) (value : α)
    {key : String} (h : (b.get? key).isSome = true) :
    ((b.set name value).get? key).isSome = true := by
  rw [get?_set]
  split
  · rfl
  · exact h

namespace Host.GrowsTo

variable {h h' h'' : Host}

theorem refl (h : Host) : h.GrowsTo h where
  units := List.prefix_rfl
  loaded := List.prefix_rfl
  searchPath := List.prefix_rfl
  output := List.prefix_rfl
  globals _ := id
  functions _ := id
  halted := id

theorem trans (hg : h.GrowsTo h') (hg' : h'.GrowsTo h'') : h.GrowsTo h'' where
  units := hg.units.trans hg'.units
  loaded := hg.loaded.trans hg'.loaded
  searchPath := hg.searchPath.trans hg'.searchPath
  output := hg.output.trans hg'.output
  globals name := hg'.globals name ∘ hg.globals name
  functions name := hg'.functions name ∘ hg.functions name
  halted := hg'.halted ∘ hg.halted

theorem setGlobal (h : Host) (name : String) (value : Value) :
    h.GrowsTo (h.setGlobal name value) :=
  { refl h with globals := fun _ => h.globals.isSome_get?_set name value }

theorem defineFunction (h : Host) (name : String) (unit : Nat) :
    h.GrowsTo (h.defineFunction name unit) :=
  { refl h with functions := fun _ => h.functions.isSome_get?_set name unit }

theorem halt (h : Host) : h.GrowsTo { h with halted := true } :=
  { refl h with halted := fun _ => rfl }

end Host.GrowsTo

namespace Host.Enlarged

variable {h h' h'' : Host}

theorem refl (h : Host) : h.Enlarged h := ⟨.refl h, rfl⟩

theorem trans (he : h.Enlarged h') (he' : h'.Enlarged h'') : h.Enlarged h'' :=
  ⟨he.toGrowsTo.trans he'.toGrowsTo, he'.same.trans he.same⟩

/-- A change of what may shrink, too: the arena, the depth, the pending exception and the paths that
are being loaded. -/
theorem of_same (hs : h' = { h with
    pending := h'.pending
    arena := h'.arena
    depth := h'.depth
    ledger := { h.ledger with loading := h'.ledger.loading } }) : h.Enlarged h' := by
  rw [hs]
  exact { refl h with }

theorem leaveFrame (h : Host) : h.Enlarged h.leaveFrame := .of_same rfl

theorem appendUnits (h : Host) (us : List CodeUnit) : h.Enlarged (h.appendUnits us) :=
  { refl h with units := List.prefix_append _ _ }

theorem printLine (h : Host) (line : String) : h.Enlarged (h.printLine line) :=
  { refl h with output := List.prefix_append _ _ }

theorem pushDir (h : Host) (dir : String) :
    h.Enlarged { h with searchPath := h.searchPath.push dir } :=
  { refl h with searchPath := List.prefix_append _ _ }

end Host.Enlarged

theorem Ledger.loaded_prefix_completed (l : Ledger) (key? : Option String) :
    l.loaded.entries <+: (l.completed key?).loaded.entries := by
  cases key? with
  | none => exact List.prefix_rfl
  | some key => exact PathSet.prefix_insert l.loaded key

theorem Ledger.loaded_abandoned (l : Ledger) (retry : Bool) (key? : Option String) :
    l.abandoned retry key? = { l with loading := (l.abandoned retry key?).loading } := by
  cases key? with
  | none => rfl
  | some key => cases retry <;> rfl

namespace Machine

variable {m m' : Machine} {f : Frame} {l : Load}

/-- What becomes of the host that runs becomes of the host that loads, or that one stays. -/
theorem loaderOf_related {R : Host → Host → Prop} (hrefl : ∀ h, R h h) {h h' : Host} (hr : R h h')
    (stack : List Activation) : R (loaderOf h stack) (loaderOf h' stack) := by
  induction stack with
  | nil => exact hr
  | cons a stack ih =>
    cases a with
    | call f dest => exact ih
    | load l => exact ih
    | compilation c => exact hrefl c.outer

theorem loader_growsTo (hg : m.host.GrowsTo m'.host) (hstack : m'.stack = m.stack) :
    m.loader.GrowsTo m'.loader := by
  rw [loader, loader, hstack]
  exact loaderOf_related Host.GrowsTo.refl hg m.stack

theorem loader_enlarged (he : m.host.Enlarged m'.host) (hstack : m'.stack = m.stack) :
    m.loader.Enlarged m'.loader := by
  rw [loader, loader, hstack]
  exact loaderOf_related Host.Enlarged.refl he m.stack

/-! ### Loads -/

theorem enter_enlarged (m : Machine) (unit : Nat) (scope : Scope) (args : List Value)
    (receiver : Value) : m.host.Enlarged (m.enter unit scope args receiver).host := by
  unfold enter
  split
  · exact .refl m.host
  · exact .of_same rfl

theorem loader_enter (m : Machine) (unit : Nat) (scope : Scope) (args : List Value)
    (receiver : Value) : m.loader.Enlarged (m.enter unit scope args receiver).loader :=
  loader_enlarged (enter_enlarged m unit scope args receiver)
    (stack_enter m unit scope args receiver)

theorem finishLoad_enlarged (m : Machine) (l : Load) : m.host.Enlarged (m.finishLoad l).host := by
  rw [finishLoad_eq]
  exact { Host.Enlarged.refl m.host with
    loaded := m.host.ledger.loaded_prefix_completed l.key }

theorem failLoad_enlarged (m : Machine) (l : Load) (e : LoadError) :
    m.host.Enlarged (m.failLoad l e).host := by
  rw [failLoad_eq, Ledger.loaded_abandoned]
  exact .of_same rfl

theorem stack_failLoad (m : Machine) (l : Load) (e : LoadError) :
    (m.failLoad l e).stack = m.stack := by
  rw [failLoad_eq]

theorem stack_finishLoad (m : Machine) (l : Load) : (m.finishLoad l).stack = m.stack := by
  rw [finishLoad_eq]

theorem loader_failLoad (m : Machine) (l : Load) (e : LoadError) :
    m.loader.Enlarged (m.failLoad l e).loader :=
  loader_enlarged (failLoad_enlarged m l e) (stack_failLoad m l e)

theorem Streamed.enlarged (hs : Streamed m l m') : m.loader.Enlarged m'.loader := by
  cases hs with
  | @failed pending e _ =>
    have hhost : m.host.Enlarged { m.host with pending } := .of_same rfl
    have hpending : m.loader.Enlarged { m with host := { m.host with pending } }.loader :=
      loader_enlarged hhost rfl
    exact hpending.trans (loader_failLoad _ l e)
  | @entered world bytes us attribution arena hw hr ha =>
    refine Host.Enlarged.trans ?_ (loader_enter _ _ _ _ _)
    have hhost : m.host.Enlarged { m.host with arena } := .of_same rfl
    exact loaderOf_related Host.Enlarged.refl (hhost.trans (.appendUnits _ _)) m.stack

theorem Dispatched.enlarged (hd : Dispatched m l m') (ho : Outermost m.stack) :
    m.loader.Enlarged m'.loader := by
  have hprepared : ∀ {m₁ : Machine} {l₁ : Load}, Prepared m l m₁ l₁ → m₁.loader = m.loader := by
    intro m₁ l₁ hp
    rw [loader, loader, hp.host, hp.stack]
  cases hd with
  | failed hp _ =>
    rw [← hprepared hp]
    exact loader_failLoad _ _ _
  | streamed hp hs =>
    rw [← hprepared hp]
    exact hs.enlarged
  | @compiles m₁ l₁ path us _ _ =>
    -- the host waits for the compilation
    rw [show m.loader = m.host from loaderOf_of_outermost _ ho]
    exact loader_enter ({ m₁ with host := m.host.isolated.appendUnits us }.push
      (.compilation { load := l₁, path, outer := m.host })) 0 .topLevel [] .main

/-! ### Steps -/

theorem Effect.growsTo {u : CodeUnit} {h h' : Host} (he : Effect f u h h') : h.GrowsTo h' := by
  cases he with
  | none => exact .refl h
  | string => exact (Host.Enlarged.of_same rfl).toGrowsTo
  | global name value => exact .setGlobal h name value
  | function name => exact .defineFunction h name _

theorem Executed.growsTo (he : Executed m f m') : m.loader.GrowsTo m'.loader := by
  cases he with
  | goesOn _ heffect _ _ _ => exact loader_growsTo heffect.growsTo rfl
  | calls dest args _ => exact (loader_enter (m.push (.call f dest)) _ _ _ _).toGrowsTo
  | halts =>
    have hleft := (Host.Enlarged.leaveFrame { m.host with halted := true }).toGrowsTo
    exact loader_growsTo ((Host.GrowsTo.halt m.host).trans hleft) rfl
  | returns | raises | lost => exact loader_growsTo (Host.Enlarged.leaveFrame m.host).toGrowsTo rfl
  | stuck => exact .refl _

theorem print_enlarged (m : Machine) (args : List Value) :
    m.loader.Enlarged (m.callBuiltin .print args).loader :=
  loader_enlarged (.printLine m.host _) rfl

theorem callBuiltin_enlarged (m : Machine) (b : Builtin) (args : List Value)
    (ho : Outermost m.stack) : m.loader.Enlarged (m.callBuiltin b args).loader := by
  generalize m.callBuiltin b args = m', callBuiltin_cases m b args = hc
  cases hc with
  | prints args => exact print_enlarged m args
  | adds dir => exact loader_enlarged (.pushDir m.host dir) rfl
  | refuses | unresolved | known => exact .refl _
  | loads => exact (dispatch_cases m _ _).enlarged ho
  | @requires name path =>
    have hledger : m.loader.Enlarged (m.mapLedger (·.markLoading path)).loader :=
      loader_enlarged (.of_same rfl) rfl
    exact hledger.trans ((dispatch_cases (m.mapLedger _) _ path).enlarged ho)

/-- A step that calls a builtin. -/
theorem fetch_enlarged {call : UInt8 × Builtin × List Value} (hb : m.builtinCall? f = some call)
    (hs : m.Secluded) : m.loader.Enlarged (m.fetch f).loader := by
  obtain ⟨dest, b, args⟩ := call
  rw [fetch_of_builtinCall? hb]
  rcases SecludedIn.cases hs with ho | ⟨hprint, -⟩
  · exact callBuiltin_enlarged (m.push (.call f dest)) b args ho
  · have hmem := mem_builtins_of_builtinCall? hb
    rw [hprint, List.mem_singleton] at hmem
    subst hmem
    exact print_enlarged (m.push (.call f dest)) args

theorem fetch_growsTo (f : Frame) (hs : m.Secluded) : m.loader.GrowsTo (m.fetch f).loader := by
  cases hb : m.builtinCall? f with
  | none => exact (fetch_executed hb).growsTo
  | some call => exact (fetch_enlarged hb hs).toGrowsTo

theorem resume_enlarged (m : Machine) (f : Frame) (dest : UInt8) (value : Value) :
    m.loader.Enlarged (m.resume f dest value).loader := by
  unfold resume assign?
  split
  · exact loader_enlarged (.leaveFrame m.host) rfl
  · cases f.write? dest value <;> exact .refl _

/-- Taking a call off the stack does not change which host loads. -/
theorem loader_of_call {dest : UInt8} {stack : List Activation}
    (hstack : m.stack = .call f dest :: stack) : m.loader = loaderOf m.host stack := by
  rw [loader, hstack]
  rfl

/-- Nor does taking a load off. -/
theorem loader_of_load {stack : List Activation} (hstack : m.stack = .load l :: stack) :
    m.loader = loaderOf m.host stack := by
  rw [loader, hstack]
  rfl

theorem returnTo_enlarged (value : Value) (a : Activation) (stack : List Activation)
    (hs : m.Secluded) (hstack : m.stack = a :: stack) :
    m.loader.Enlarged ({ m with stack }.returnTo value a).loader := by
  cases a with
  | call f dest =>
    rw [loader_of_call hstack]
    exact resume_enlarged { m with stack } f dest value
  | load l =>
    rw [loader_of_load hstack]
    exact loader_enlarged (finishLoad_enlarged { m with stack } l) (stack_finishLoad _ l)
  | compilation c =>
    obtain ⟨ho, hl⟩ := hs.below_compilation hstack
    rw [hl, show c.outer = loaderOf c.outer stack from (loaderOf_of_outermost _ ho).symm]
    exact (loadCompiledUnits_cases { m with host := c.outer, stack } c.load c.path _).enlarged

theorem raiseTo_enlarged (e : Exception) (a : Activation) (stack : List Activation)
    (hs : m.Secluded) (hstack : m.stack = a :: stack) :
    m.loader.Enlarged ({ m with stack }.raiseTo e a).loader := by
  cases a with
  | call f dest =>
    rw [loader_of_call hstack]
    exact loaderOf_related Host.Enlarged.refl (.leaveFrame m.host) stack
  | load l =>
    rw [loader_of_load hstack]
    exact loader_failLoad { m with stack } l _
  | compilation c =>
    obtain ⟨ho, hl⟩ := hs.below_compilation hstack
    rw [hl, show c.outer = loaderOf c.outer stack from (loaderOf_of_outermost _ ho).symm]
    exact loader_failLoad { m with host := c.outer, stack } c.load _

/-- A step that hands on a result. -/
theorem step_enlarged (hs : m.Secluded) (hc : ∀ f, m.control ≠ .running f) :
    m.loader.Enlarged m.step.loader := by
  generalize m.step = m', stepped m = hstep
  cases hstep with
  | fetches hf => exact absurd hf (hc _)
  | stays hdone => exact .refl _
  | returns hvalue hstack => exact returnTo_enlarged _ _ _ hs hstack
  | raises he hstack => exact raiseTo_enlarged _ _ _ hs hstack

theorem step_of_running (hc : m.control = .running f) : m.step = m.fetch f := by
  rw [step, hc]

/-- No step takes anything from the host. -/
theorem growsTo_step (hs : m.Secluded) : m.loader.GrowsTo m.step.loader := by
  by_cases hc : ∃ f, m.control = .running f
  · obtain ⟨f, hf⟩ := hc
    rw [step_of_running hf]
    exact fetch_growsTo f hs
  · exact (step_enlarged hs (not_exists.1 hc)).toGrowsTo

theorem Secluded.run (hs : m.Secluded) (n : Nat) : (m.run n).Secluded :=
  run_induction (P := Secluded) (fun _ h => (step_obeys h).secluded) hs n

/-- Between any two moments of a run the host has only grown. -/
theorem growsTo_run (hs : m.Secluded) (n : Nat) : m.loader.GrowsTo (m.run n).loader := by
  induction n with
  | zero => exact .refl _
  | succ n ih =>
    rw [run_succ']
    exact ih.trans (growsTo_step (hs.run n))

end Machine

end ModuleHost
