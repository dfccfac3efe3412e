import ModuleHost.Proofs.Ledger.Books
import ModuleHost.Proofs.Machine.Dispatched
import ModuleHost.Proofs.Machine.Executed

/-!
# The machine obeys the ledger discipline

The keys underway can be read off the stack, and what a step does to them can be read off the
machine before it: `Machine.events`.  What is started among them is what is handed to a loader
(`started_mem_requireEvents_iff`).  `step_obeys` says that these events are moves of `Books`, so
that everything shown there holds of every run.

A compiler that runs what it compiles does so in a host of its own.  Code there can do nothing but
print (`Secluded`), and the ledger that counts meanwhile is the one of the host that waits for the
compilation: `Machine.loader`.
-/

namespace ModuleHost

/-- The key of the dispatch that waits here for its end. -/
def Activation.key? : Activation → Option String
  | .call _ _ => none
  | .load l => l.key
  | .compilation c => c.load.key

/-- Hosts that differ in nothing that loading looks at. -/
structure Host.LoadsAlike (h h' : Host) : Prop where
  builtins : h'.builtins = h.builtins
  ledger : h'.ledger = h.ledger
  config : h'.config = h.config

namespace Machine

open Books

/-! ### The books of a machine -/

/-- The keys underway, the latest first. -/
def keys (stack : List Activation) : List String := stack.filterMap Activation.key?

/-- No compilation is waiting. -/
def Outermost : List Activation → Prop
  | [] => True
  | .compilation _ :: _ => False
  | _ :: stack => Outermost stack

/-- The host whose ledger counts when `h` is the host that runs. -/
def loaderOf (h : Host) : List Activation → Host
  | [] => h
  | .compilation c :: _ => c.outer
  | _ :: stack => loaderOf h stack

/-- Above a compilation there are only calls, and the code that runs there can only print. -/
def SecludedIn (h : Host) : List Activation → Prop
  | [] => True
  | .call _ _ :: stack => SecludedIn h stack
  | .load _ :: stack => Outermost stack
  | .compilation _ :: stack => h.builtins = [.print] ∧ Outermost stack

def loader (m : Machine) : Host := loaderOf m.host m.stack

def Secluded (m : Machine) : Prop := SecludedIn m.host m.stack

def books (m : Machine) : Books := ⟨m.loader.ledger, keys m.stack⟩

theorem keys_cons (a : Activation) (stack : List Activation) :
    keys (a :: stack) = a.key?.toList ++ keys stack := by
  rw [keys, List.filterMap_cons]
  cases a.key? <;> rfl

theorem loaderOf_of_outermost (h : Host) {stack : List Activation} (ho : Outermost stack) :
    loaderOf h stack = h := by
  induction stack with
  | nil => rfl
  | cons a stack ih =>
    cases a with
    | compilation c => exact ho.elim
    | call f dest => exact ih ho
    | load l => exact ih ho

theorem secludedIn_of_outermost (h : Host) {stack : List Activation} (ho : Outermost stack) :
    SecludedIn h stack := by
  induction stack with
  | nil => trivial
  | cons a stack ih =>
    cases a with
    | compilation c => exact ho.elim
    | call f dest => exact ih ho
    | load l => exact ho

/-- Either the host that runs is the one that loads, or it can only print. -/
theorem SecludedIn.cases {h : Host} {stack : List Activation} (hs : SecludedIn h stack) :
    Outermost stack ∨ h.builtins = [.print] ∧ ∀ h', loaderOf h' stack = loaderOf h stack := by
  induction stack with
  | nil => exact Or.inl trivial
  | cons a stack ih =>
    cases a with
    | call f dest => exact ih hs
    | load l => exact Or.inl hs
    | compilation c => exact Or.inr ⟨hs.1, fun _ => rfl⟩

theorem SecludedIn.congr {h h' : Host} (ha : h.LoadsAlike h') {stack : List Activation}
    (hs : SecludedIn h stack) : SecludedIn h' stack := by
  induction stack with
  | nil => trivial
  | cons a stack ih =>
    cases a with
    | call f dest => exact ih hs
    | load l => exact hs
    | compilation c => exact ⟨ha.builtins.trans hs.1, hs.2⟩

theorem loaderOf_congr {h h' : Host} (ha : h.LoadsAlike h') (stack : List Activation) :
    (loaderOf h stack).LoadsAlike (loaderOf h' stack) := by
  induction stack with
  | nil => exact ha
  | cons a stack ih =>
    cases a with
    | call f dest => exact ih
    | load l => exact ih
    | compilation c => exact ⟨rfl, rfl, rfl⟩

/-! ### Events -/

/-- What becomes of the key if the machine has failed to load it. -/
def failures (m : Machine) (key? : Option String) : List DispatchEvent :=
  match m.control with
  | .failing _ => key?.toList.map .failed
  | _ => []

/-- The events of requiring `name` now: the module may be started, and it may fail at once. -/
def requireEvents (m : Machine) (name : String) : List DispatchEvent :=
  match m.world.resolve m.host.searchPath name with
  | .error _ => []
  | .ok path =>
    match m.host.ledger.begin? path with
    | none => []
    | some _ => .started path :: (m.require name).failures (some path)

/-- Requiring a name starts the file that it hands to its loader, or else changes nothing but the
control. -/
theorem requireEvents_cases (m : Machine) (name : String) :
    (∃ path, m.world.resolve m.host.searchPath name = .ok path
        ∧ m.host.ledger.state path = .fresh
        ∧ m.requireEvents name = .started path :: (m.require name).failures (some path)
        ∧ m.require name
          = (m.mapLedger (·.markLoading path)).dispatch (m.newLoad (some path)) path)
      ∨ m.requireEvents name = [] ∧ ∃ control, m.require name = { m with control } := by
  unfold requireEvents
  cases hr : m.world.resolve m.host.searchPath name with
  | error e => exact Or.inr ⟨rfl, _, require_unresolved hr⟩
  | ok path =>
    dsimp only
    cases hb : m.host.ledger.begin? path with
    | none =>
      have hk := (Ledger.begin?_eq_none_iff _ _).1 hb
      exact Or.inr ⟨rfl, _, require_known hr hk⟩
    | some ledger =>
      have hf := ((Ledger.begin?_eq_some_iff _ _ _).1 hb).1
      exact Or.inl ⟨path, rfl, hf, rfl, require_of_fresh hr hf⟩

theorem started_notMem_failures (m : Machine) (key? : Option String) (path : String) :
    .started path ∉ m.failures key? := by
  unfold failures
  split
  · cases key? <;> simp
  · exact List.not_mem_nil

/-- A file is started exactly when it is handed to its loader. -/
theorem started_mem_requireEvents_iff {m : Machine} {name path : String} :
    .started path ∈ m.requireEvents name
      ↔ m.world.resolve m.host.searchPath name = .ok path ∧ m.host.ledger.state path = .fresh
        ∧ m.require name
          = (m.mapLedger (·.markLoading path)).dispatch (m.newLoad (some path)) path := by
  rcases requireEvents_cases m name with ⟨path', hr, hf, hevents, hrequire⟩ | ⟨hevents, -⟩
  · rw [hevents, List.mem_cons]
    constructor
    · rintro (h | h)
      · cases h
        exact ⟨hr, hf, hrequire⟩
      · exact absurd h (started_notMem_failures _ _ _)
    · rintro ⟨hr', -⟩
      cases hr.symm.trans hr'
      exact Or.inl rfl
  · rw [hevents]
    refine ⟨fun h => absurd h List.not_mem_nil, ?_⟩
    rintro ⟨hr, hf, -⟩
    rw [requireEvents, hr] at hevents
    dsimp only at hevents
    rw [(Ledger.begin?_eq_some_iff _ _ _).2 ⟨hf, rfl⟩] at hevents
    cases hevents

def events (m : Machine) : List DispatchEvent :=
  match m.control, m.stack with
  | .running f, _ =>
    match m.builtinCall? f with
    | some (dest, .require, args) =>
      match nameArgument args with
      | .ok name => (m.push (.call f dest)).requireEvents name
      | .error _ => []
    | _ => []
  | .returning _, .load l :: _ => l.key.toList.map .completed
  | .returning _, .compilation c :: _ => m.step.failures c.load.key
  | .raising _, a :: _ => a.key?.toList.map .failed
  | .failing _, a :: _ => a.key?.toList.map .failed
  | _, _ => []

/-! ### Obedience -/

/-- From the books `b` the machine has been led here by the moves `log`. -/
structure Obeys (retry : Bool) (b : Books) (log : List DispatchEvent) (m : Machine) : Prop where
  secluded : m.Secluded
  config : m.loader.config.retryFailed = retry
  moves : Moves retry b log m.books

variable {retry : Bool} {b : Books} {log : List DispatchEvent} {m m' : Machine}

theorem Secluded.obeys (hs : m.Secluded) : Obeys m.loader.config.retryFailed m.books [] m :=
  ⟨hs, rfl, .refl _⟩

/-- A change that loading does not see. -/
theorem Obeys.congr (h : Obeys retry b log m) (ha : m.host.LoadsAlike m'.host)
    (hstack : m'.stack = m.stack) : Obeys retry b log m' := by
  obtain ⟨hs, hc, hm⟩ := h
  have hl : m.loader.LoadsAlike m'.loader := by
    rw [loader, loader, hstack]
    exact loaderOf_congr ha m.stack
  have hb : m'.books = m.books := by
    rw [books, books, hl.ledger, hstack]
  refine ⟨?_, ?_, hb ▸ hm⟩
  · rw [Secluded, hstack]
    exact hs.congr ha
  · rw [hl.config, hc]

theorem Obeys.push_call (h : Obeys retry b log m) (f : Frame) (dest : UInt8) :
    Obeys retry b log (m.push (.call f dest)) :=
  ⟨h.secluded, h.config, h.moves⟩

/-- Moves of a host that itself does the loading. -/
theorem obeys_of_outermost (ho : Outermost m.stack) (hc : m.host.config.retryFailed = retry)
    (h : Moves retry b log ⟨m.host.ledger, keys m.stack⟩) : Obeys retry b log m := by
  have hl : m.loader = m.host := loaderOf_of_outermost _ ho
  refine ⟨secludedIn_of_outermost _ ho, by rw [hl, hc], ?_⟩
  rw [books, hl]
  exact h

/-! ### Loads -/

theorem LoadsAlike.enter (m : Machine) (unit : Nat) (scope : Scope) (args : List Value)
    (receiver : Value) : m.host.LoadsAlike (m.enter unit scope args receiver).host := by
  unfold Machine.enter
  split <;> exact ⟨rfl, rfl, rfl⟩

theorem stack_enter (m : Machine) (unit : Nat) (scope : Scope) (args : List Value)
    (receiver : Value) : (m.enter unit scope args receiver).stack = m.stack := by
  unfold Machine.enter
  split <;> rfl

theorem Obeys.enter (h : Obeys retry b log m) (unit : Nat) (scope : Scope) (args : List Value)
    (receiver : Value) : Obeys retry b log (m.enter unit scope args receiver) :=
  h.congr (LoadsAlike.enter m unit scope args receiver) (stack_enter m unit scope args receiver)

/-- Entering a frame is no failure to load. -/
theorem failures_enter (m : Machine) (unit : Nat) (scope : Scope) (args : List Value)
    (receiver : Value) (key? : Option String) :
    (m.enter unit scope args receiver).failures key? = [] := by
  unfold Machine.enter
  split <;> rfl

theorem failures_failLoad (m : Machine) (l : Load) (e : LoadError) (key? : Option String) :
    (m.failLoad l e).failures key? = key?.toList.map .failed := by
  rw [failLoad_eq]
  rfl

/-- A load without a key fails unnoticed. -/
theorem failures_none (m : Machine) : m.failures none = [] := by
  unfold failures
  split <;> rfl

def booksDuring (m : Machine) (l : Load) : Books :=
  ⟨m.host.ledger, l.key.toList ++ keys m.stack⟩

theorem failLoad_obeys (m : Machine) (l : Load) (e : LoadError) (ho : Outermost m.stack) :
    Obeys m.host.config.retryFailed (m.booksDuring l) (l.key.toList.map .failed)
      (m.failLoad l e) := by
  rw [failLoad_eq]
  refine obeys_of_outermost ?_ rfl ?_
  · exact ho
  unfold booksDuring
  cases l.key with
  | none => exact .refl _
  | some key => exact .single .failed

theorem finishLoad_obeys (m : Machine) (l : Load) (ho : Outermost m.stack) :
    Obeys m.host.config.retryFailed (m.booksDuring l) (l.key.toList.map .completed)
      (m.finishLoad l) := by
  rw [finishLoad_eq]
  refine obeys_of_outermost ?_ rfl ?_
  · exact ho
  unfold booksDuring
  cases l.key with
  | none => exact .refl _
  | some key => exact .single .completed

theorem Streamed.obeys {l : Load} (h : Streamed m l m') (ho : Outermost m.stack) :
    Obeys m.host.config.retryFailed (m.booksDuring l) (m'.failures l.key) m' := by
  cases h with
  | @failed pending e he =>
    rw [failures_failLoad]
    exact failLoad_obeys { m with host := { m.host with pending } } l e ho
  | entered hw hr ha =>
    rw [enterTopLevel, failures_enter]
    refine Obeys.enter ?_ _ _ _ _
    refine obeys_of_outermost ?_ rfl ?_
    · exact ho
    · rw [push, keys_cons]
      exact .refl _

theorem Dispatched.obeys {l : Load} (h : Dispatched m l m') (ho : Outermost m.stack) :
    Obeys m.host.config.retryFailed (m.booksDuring l) (m'.failures l.key) m' := by
  cases h with
  | @failed m₁ l₁ e hp he =>
    rw [failures_failLoad]
    cases hp with
    | plain => exact failLoad_obeys m l e ho
    | @missed _ world => exact failLoad_obeys { m with world } l e ho
    | @made a world => exact failLoad_obeys { m with world } { l with artifact := some a } e ho
  | streamed hp hs =>
    have ho := hs.obeys (by cases hp <;> exact ho)
    cases hp <;> exact ho
  | @compiles m₁ l₁ path units hp hc =>
    rw [enterTopLevel, failures_enter]
    refine Obeys.enter ?_ _ _ _ _
    refine ⟨⟨rfl, ?_⟩, rfl, ?_⟩
    · exact hp.stack ▸ ho
    · rw [books, push, keys_cons, hp.stack, booksDuring, ← hp.key]
      exact .refl _

theorem load_obeys (m : Machine) (name : String) (ho : Outermost m.stack) :
    Obeys m.host.config.retryFailed ⟨m.host.ledger, keys m.stack⟩ [] (m.load name) := by
  unfold Machine.load
  cases m.world.resolve m.host.searchPath name with
  | error e => exact obeys_of_outermost ho rfl (.refl _)
  | ok path =>
    have hd := (dispatch_cases m (m.newLoad none) path).obeys ho
    rw [show (m.newLoad none).key = none from rfl, failures_none] at hd
    exact hd

theorem require_obeys (m : Machine) (name : String) (ho : Outermost m.stack) :
    Obeys m.host.config.retryFailed ⟨m.host.ledger, keys m.stack⟩ (m.requireEvents name)
      (m.require name) := by
  rcases requireEvents_cases m name with ⟨path, -, hf, hevents, hrequire⟩ | ⟨hevents, control, hm⟩
  · have hd := (dispatch_cases (m.mapLedger (·.markLoading path)) (m.newLoad (some path)) path).obeys
      ho
    rw [← hrequire] at hd
    rw [hevents]
    exact ⟨hd.secluded, hd.config, (Moves.single (.started hf)).append hd.moves⟩
  · rw [hevents, hm]
    exact obeys_of_outermost ho rfl (.refl _)

/-! ### Steps -/

theorem Effect.loadsAlike {f : Frame} {u : CodeUnit} {h h' : Host} (he : Effect f u h h') :
    h.LoadsAlike h' := by
  cases he <;> exact ⟨rfl, rfl, rfl⟩

theorem Executed.obeys {f : Frame} (h : Obeys retry b log m) (he : Executed m f m') :
    Obeys retry b log m' := by
  cases he with
  | goesOn _ heffect _ _ _ => exact h.congr heffect.loadsAlike rfl
  | calls dest args _ => exact (h.push_call f dest).enter _ _ _ _
  | returns | halts | raises | lost | stuck => exact h.congr ⟨rfl, rfl, rfl⟩ rfl

/-- A builtin other than `require`. -/
theorem withName_obeys (h : Obeys retry b log m) (args : List Value) {run : String → Machine}
    (hr : ∀ name, Obeys retry b log (run name)) : Obeys retry b log (m.withName args run) := by
  unfold withName
  cases nameArgument args with
  | ok name => exact hr name
  | error e => exact h.congr ⟨rfl, rfl, rfl⟩ rfl

theorem fetch_obeys (f : Frame) (hs : m.Secluded) (hc : m.control = .running f) :
    Obeys m.loader.config.retryFailed m.books m.events (m.fetch f) := by
  have hevents : m.events = match m.builtinCall? f with
      | some (dest, .require, args) =>
        match nameArgument args with
        | .ok name => (m.push (.call f dest)).requireEvents name
        | .error _ => []
      | _ => [] := by
    rw [events, hc]
  rw [hevents]
  cases hb : m.builtinCall? f with
  | none => exact (fetch_executed hb).obeys hs.obeys
  | some call =>
    obtain ⟨dest, builtin, args⟩ := call
    rw [fetch_of_builtinCall? hb]
    have hpush := hs.obeys.push_call f dest
    rcases SecludedIn.cases hs with ho | ⟨hprint, -⟩
    · have hl : m.loader = m.host := loaderOf_of_outermost _ ho
      cases builtin with
      | print => exact hpush.congr ⟨rfl, rfl, rfl⟩ rfl
      | addLoadPath => exact withName_obeys hpush args fun _ => hpush.congr ⟨rfl, rfl, rfl⟩ rfl
      | load =>
        refine withName_obeys hpush args fun name => ?_
        rw [books, hl]
        exact load_obeys (m.push (.call f dest)) name ho
      | require =>
        dsimp only [callBuiltin, withName]
        rw [books, hl] at hpush ⊢
        cases nameArgument args with
        | ok name => exact require_obeys (m.push (.call f dest)) name ho
        | error e => exact hpush.congr ⟨rfl, rfl, rfl⟩ rfl
    · have hmem := mem_builtins_of_builtinCall? hb
      rw [hprint, List.mem_singleton] at hmem
      subst hmem
      exact hpush.congr ⟨rfl, rfl, rfl⟩ rfl

theorem books_of_key {a : Activation} {stack : List Activation} (h : m.stack = a :: stack) :
    m.books = ⟨m.loader.ledger, a.key?.toList ++ keys stack⟩ := by
  rw [books, h, keys_cons]

/-- A result leaves the books alone on its way to a frame. -/
theorem Secluded.obeys_below_call {f : Frame} {dest : UInt8} {stack : List Activation}
    (hs : m.Secluded) (hstack : m.stack = .call f dest :: stack) :
    Obeys m.loader.config.retryFailed m.books [] { m with stack } := by
  have hl : m.loader = loaderOf m.host stack := by rw [loader, hstack]; rfl
  refine ⟨?_, ?_, ?_⟩
  · rw [Secluded, hstack] at hs
    exact hs
  · rw [hl]
    rfl
  · rw [books, hl, hstack]
    exact .refl _

/-- Only the loading host has loads waiting in it. -/
theorem Secluded.below_load {l : Load} {stack : List Activation} (hs : m.Secluded)
    (hstack : m.stack = .load l :: stack) : Outermost stack ∧ m.loader = m.host := by
  rw [Secluded, hstack] at hs
  refine ⟨hs, ?_⟩
  rw [loader, hstack]
  exact loaderOf_of_outermost m.host (show Outermost stack from hs)

theorem Secluded.below_compilation {c : Compilation} {stack : List Activation} (hs : m.Secluded)
    (hstack : m.stack = .compilation c :: stack) : Outermost stack ∧ m.loader = c.outer := by
  rw [Secluded, hstack] at hs
  refine ⟨hs.2, ?_⟩
  rw [loader, hstack]
  rfl

/-- A value is handed to what waits for it. -/
theorem returnTo_obeys (v : Value) (a : Activation) (stack : List Activation) (hs : m.Secluded)
    (hc : m.control = .returning v) (hstack : m.stack = a :: stack) :
    Obeys m.loader.config.retryFailed m.books m.events ({ m with stack }.returnTo v a) := by
  cases a with
  | call f dest =>
    have hevents : m.events = [] := by rw [events, hc, hstack]
    have hcall := hs.obeys_below_call hstack
    rw [hevents, returnTo, resume, assign?]
    split
    · exact hcall.congr ⟨rfl, rfl, rfl⟩ rfl
    · cases f.write? dest v with
      | none => exact hcall.congr ⟨rfl, rfl, rfl⟩ rfl
      | some f' => exact hcall.congr ⟨rfl, rfl, rfl⟩ rfl
  | load l =>
    have hevents : m.events = l.key.toList.map .completed := by rw [events, hc, hstack]
    obtain ⟨ho, hl⟩ := hs.below_load hstack
    rw [hevents, books_of_key hstack, hl]
    exact finishLoad_obeys { m with stack } l ho
  | compilation c =>
    have hstep : m.step = { m with stack }.finishCompilation c := by
      rw [step, hc, hstack]
      rfl
    have hevents : m.events = ({ m with stack }.finishCompilation c).failures c.load.key := by
      rw [← hstep, events, hc, hstack]
    obtain ⟨ho, hl⟩ := hs.below_compilation hstack
    rw [hevents, books_of_key hstack, hl]
    exact (loadCompiledUnits_cases { m with host := c.outer, stack } c.load c.path _).obeys ho

/-- An exception is handed to what waits. -/
theorem raiseTo_obeys (e : Exception) (a : Activation) (stack : List Activation) (hs : m.Secluded)
    (hstack : m.stack = a :: stack) :
    Obeys m.loader.config.retryFailed m.books (a.key?.toList.map .failed)
      ({ m with stack }.raiseTo e a) := by
  cases a with
  | call f dest => exact (hs.obeys_below_call hstack).congr ⟨rfl, rfl, rfl⟩ rfl
  | load l =>
    obtain ⟨ho, hl⟩ := hs.below_load hstack
    rw [books_of_key hstack, hl]
    exact failLoad_obeys { m with stack } l _ ho
  | compilation c =>
    obtain ⟨ho, hl⟩ := hs.below_compilation hstack
    rw [books_of_key hstack, hl]
    exact failLoad_obeys { m with host := c.outer, stack } c.load _ ho

theorem events_of_isDone (h : m.isDone = true) : m.events = [] := by
  obtain ⟨host, world, control, stack⟩ := m
  cases control with
  | running f => cases h
  | stuck => rfl
  | returning v | raising e | failing e =>
    cases stack with
    | nil => rfl
    | cons a stack => cases h

/-- Every step makes the moves that its events say. -/
theorem step_obeys (hs : m.Secluded) :
    Obeys m.loader.config.retryFailed m.books m.events m.step := by
  have hdone : m.isDone = true → Obeys m.loader.config.retryFailed m.books m.events m.step := by
    intro h
    rw [step_of_isDone h, events_of_isDone h]
    exact hs.obeys
  cases hc : m.control with
  | running f =>
    have hstep : m.step = m.fetch f := by rw [step, hc]
    rw [hstep]
    exact fetch_obeys f hs hc
  | stuck => exact hdone (by rw [isDone, hc])
  | returning v =>
    cases hstack : m.stack with
    | nil => exact hdone (by rw [isDone, hc, hstack]; rfl)
    | cons a stack =>
      have hstep : m.step = { m with stack }.returnTo v a := by rw [step, hc, hstack]
      rw [hstep]
      exact returnTo_obeys v a stack hs hc hstack
  | raising e =>
    cases hstack : m.stack with
    | nil => exact hdone (by rw [isDone, hc, hstack]; rfl)
    | cons a stack =>
      have hstep : m.step = { m with stack }.raiseTo e a := by rw [step, hc, hstack]
      have hevents : m.events = a.key?.toList.map .failed := by rw [events, hc, hstack]
      rw [hstep, hevents]
      exact raiseTo_obeys e a stack hs hstack
  | failing e =>
    cases hstack : m.stack with
    | nil => exact hdone (by rw [isDone, hc, hstack]; rfl)
    | cons a stack =>
      have hstep : m.step = { m with stack }.raiseTo e.toException a := by rw [step, hc, hstack]
      have hevents : m.events = a.key?.toList.map .failed := by rw [events, hc, hstack]
      rw [hstep, hevents]
      exact raiseTo_obeys _ a stack hs hstack

theorem Obeys.step (h : Obeys retry b log m) : Obeys retry b (log ++ m.events) m.step := by
  have hstep := step_obeys h.secluded
  rw [h.config] at hstep
  exact ⟨hstep.secluded, hstep.config, h.moves.append hstep.moves⟩

/-- A run obeys the discipline with some row of events. -/
theorem Obeys.run (h : Obeys retry b log m) (n : Nat) : ∃ log', Obeys retry b log' (m.run n) := by
  apply run_induction (P := fun m => ∃ log', Obeys retry b log' m)
  · rintro m ⟨log', h'⟩
    exact ⟨log' ++ m.events, h'.step⟩
  · exact ⟨log, h⟩

end Machine

end ModuleHost
