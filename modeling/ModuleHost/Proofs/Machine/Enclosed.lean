import ModuleHost.Proofs.Bytecode.Accepted
import ModuleHost.Proofs.Machine.Isolated

/-!
# Where code can get to

Units name their children by distance, functions are bound to indices of units, and whatever is
loaded goes to the end of the table.  So code that begins behind the first `n` units never comes to
them, and never looks for a unit that is not there (`Machine.Enclosed.run`), as long as the children
of the other units lie in the table.  What is being compiled runs elsewhere.
-/

namespace ModuleHost

/-- There is a unit at the index, and it is none of the first `n`. -/
def Host.Has (n : Nat) (h : Host) (i : Nat) : Prop := n ≤ i ∧ i < h.units.length

/-- The host has all units that can be run in it: those of its functions and of the frames that
wait, and the children of those that it has. -/
structure Host.Encloses (n : Nat) (h : Host) (stack : List Activation) : Prop where
  le : n ≤ h.units.length
  functions : ∀ name i, h.functions.get? name = some i → h.Has n i
  children : ∀ i u, n ≤ i → h.units[i]? = some u →
    ∀ offset ∈ u.children, i + offset.toNat < h.units.length
  frames : ∀ f dest, Activation.call f dest ∈ stack → h.Has n f.unit
  settled : ∀ c, Activation.compilation c ∉ stack

namespace Host.Encloses

variable {n : Nat} {h h' : Host} {stack : List Activation}

theorem of_tables (he : h.Encloses n stack) (hunits : h'.units = h.units)
    (hfunctions : h'.functions = h.functions) : h'.Encloses n stack := by
  obtain ⟨hle, hnames, hchildren, hframes, hsettled⟩ := he
  constructor
  · rw [hunits]
    exact hle
  · rw [hfunctions]
    intro name i hi
    rw [Has, hunits]
    exact hnames name i hi
  · rw [hunits]
    exact hchildren
  · intro f dest hf
    rw [Has, hunits]
    exact hframes f dest hf
  · exact hsettled

theorem push_load (he : h.Encloses n stack) (l : Load) : h.Encloses n (.load l :: stack) where
  le := he.le
  functions := he.functions
  children := he.children
  frames f dest hf := he.frames f dest ((List.mem_cons.1 hf).resolve_left nofun)
  settled c hc := he.settled c ((List.mem_cons.1 hc).resolve_left nofun)

theorem push_call (he : h.Encloses n stack) {f : Frame} (hf : h.Has n f.unit) (dest : UInt8) :
    h.Encloses n (.call f dest :: stack) where
  le := he.le
  functions := he.functions
  children := he.children
  frames f' dest' hmem := by
    rcases List.mem_cons.1 hmem with heq | hmem
    · cases heq
      exact hf
    · exact he.frames f' dest' hmem
  settled c hc := he.settled c ((List.mem_cons.1 hc).resolve_left nofun)

theorem pop {a : Activation} (he : h.Encloses n (a :: stack)) : h.Encloses n stack where
  le := he.le
  functions := he.functions
  children := he.children
  frames f dest hf := he.frames f dest (List.mem_cons_of_mem a hf)
  settled c hc := he.settled c (List.mem_cons_of_mem a hc)

theorem defineFunction (he : h.Encloses n stack) (name : String) {i : Nat} (hi : h.Has n i) :
    (h.defineFunction name i).Encloses n stack where
  le := he.le
  functions name' j hj := by
    have hset : (h.functions.set name i).get? name' = some j := hj
    rw [Bindings.get?_set] at hset
    split at hset
    · cases hset
      exact hi
    · exact he.functions name' j hset
  children := he.children
  frames := he.frames
  settled := he.settled

/-- A group of units is put behind the others. -/
theorem appendUnits (he : h.Encloses n stack) {us : List CodeUnit}
    (hus : ∀ k u, us[k]? = some u → ∀ offset ∈ u.children, k + offset.toNat < us.length) :
    (h.appendUnits us).Encloses n stack := by
  have hlength : (h.appendUnits us).units.length = h.units.length + us.length :=
    List.length_append
  have hmono : ∀ i, h.Has n i → (h.appendUnits us).Has n i := by
    intro i hi
    refine ⟨hi.1, ?_⟩
    rw [hlength]
    exact Nat.lt_add_right _ hi.2
  refine ⟨?_, fun name i hi => hmono i (he.functions name i hi), ?_,
    fun f dest hf => hmono _ (he.frames f dest hf), he.settled⟩
  · rw [hlength]
    exact Nat.le_add_right_of_le he.le
  · intro i u hi hu offset hoffset
    have hat : (h.units ++ us)[i]? = some u := hu
    rw [hlength]
    by_cases hlt : i < h.units.length
    · rw [List.getElem?_append_left hlt] at hat
      have hold := he.children i u hi hat offset hoffset
      omega
    · rw [List.getElem?_append_right (Nat.le_of_not_lt hlt)] at hat
      have hnew := hus _ u hat offset hoffset
      omega

end Host.Encloses

/-- Whatever a group of units is attributed to, its children lie in it. -/
theorem CodeUnit.children_placed {us : List CodeUnit} (attribution : String)
    (hus : ∀ k u, us[k]? = some u → ∀ offset ∈ u.children, k + offset.toNat < us.length) :
    ∀ k u, (CodeUnit.placed attribution us)[k]? = some u →
      ∀ offset ∈ u.children, k + offset.toNat < (CodeUnit.placed attribution us).length := by
  cases us with
  | nil => exact hus
  | cons v vs =>
    intro k u hu offset hoffset
    have hlength : (CodeUnit.placed attribution (v :: vs)).length = (v :: vs).length := by
      rw [CodeUnit.placed, List.length_modifyHead, List.length_map]
    rw [hlength]
    cases k with
    | zero =>
      cases hu
      rw [children_finalize] at hoffset
      exact hus 0 v rfl offset hoffset
    | succ k =>
      have hmap : (vs.map fun u : CodeUnit => { u with filename := some attribution })[k]?
          = some u := hu
      rw [List.getElem?_map, Option.map_eq_some_iff] at hmap
      obtain ⟨u₀, hu₀, rfl⟩ := hmap
      exact hus (k + 1) u₀ hu₀ offset hoffset

namespace Machine

variable {n : Nat} {m m' : Machine} {f : Frame} {l : Load}

/-- The unit that runs is there and none of the first `n`; so are all others that can be run. -/
inductive Enclosed (n : Nat) : Machine → Prop
  | plain {m : Machine} (h : m.host.Encloses n m.stack)
      (hrunning : ∀ f, m.control = .running f → m.host.Has n f.unit) : Enclosed n m
  | compiling {x : Machine} {us : List CodeUnit} {w : World} {h : Host} {stack : List Activation}
      {l : Load} {path : String} (hi : x.Isolated us w) (hh : h.Encloses n stack) :
      Enclosed n (x.above (.compilation { load := l, path, outer := h } :: stack))

/-! ### Loads -/

theorem enclosed_enter (h : m.host.Encloses n m.stack) {i : Nat} (hi : m.host.Has n i)
    (scope : Scope) (args : List Value) (receiver : Value) :
    (m.enter i scope args receiver).Enclosed n := by
  unfold enter
  split
  · exact .plain h nofun
  · refine .plain (h.of_tables rfl rfl) fun f hf => ?_
    cases hf
    exact hi

theorem enclosed_failLoad (h : m.host.Encloses n m.stack) (l : Load) (e : LoadError) :
    (m.failLoad l e).Enclosed n := by
  rw [failLoad_eq]
  exact .plain (h.of_tables rfl rfl) nofun

theorem enclosed_finishLoad (h : m.host.Encloses n m.stack) (l : Load) :
    (m.finishLoad l).Enclosed n := by
  rw [finishLoad_eq]
  exact .plain (h.of_tables rfl rfl) nofun

theorem Streamed.enclosed (hs : Streamed m l m') (h : m.host.Encloses n m.stack) :
    m'.Enclosed n := by
  cases hs with
  | @failed pending e _ =>
    have hhost : Host.Encloses n { m.host with pending } m.stack := h.of_tables rfl rfl
    exact enclosed_failLoad (m := { m with host := { m.host with pending } }) hhost l e
  | @entered world bytes us attribution arena _ hr _ =>
    obtain ⟨hne, hchildren⟩ := Bytecode.read_accepted hr
    have hplaced := CodeUnit.children_placed attribution fun k u hu offset hoffset =>
      (hchildren k u hu offset hoffset).2
    have hhost : Host.Encloses n { m.host with arena } m.stack := h.of_tables rfl rfl
    refine enclosed_enter ((hhost.appendUnits hplaced).push_load l) ⟨h.le, ?_⟩ _ _ _
    have hpositive : 0 < us.length := List.length_pos_iff.2 hne
    show m.host.units.length < (m.host.units ++ CodeUnit.placed attribution us).length
    rw [List.length_append, CodeUnit.placed, List.length_modifyHead, List.length_map]
    omega

theorem Dispatched.enclosed (hd : Dispatched m l m') (h : m.host.Encloses n m.stack) :
    m'.Enclosed n := by
  have hprepared : ∀ {m₁ : Machine} {l₁ : Load}, Prepared m l m₁ l₁ →
      m₁.host.Encloses n m₁.stack := by
    intro m₁ l₁ hp
    rw [hp.host, hp.stack]
    exact h
  cases hd with
  | failed hp _ => exact enclosed_failLoad (hprepared hp) _ _
  | streamed hp hs => exact hs.enclosed (hprepared hp)
  | @compiles m₁ l₁ path us hp _ =>
    have hi : Isolated us m₁.world
        { m₁ with host := m.host.isolated.appendUnits us, stack := [] } :=
      ⟨rfl, rfl, rfl, nofun⟩
    rw [push_eq_above, enterTopLevel_above, hp.stack]
    exact .compiling (hi.enter 0 .topLevel [] .main) h

/-! ### Steps -/

theorem enclosed_callBuiltin (h : m.host.Encloses n m.stack) (b : Builtin) (args : List Value) :
    (m.callBuiltin b args).Enclosed n := by
  generalize m.callBuiltin b args = m', callBuiltin_cases m b args = hc
  cases hc with
  | prints | adds => exact .plain (h.of_tables rfl rfl) nofun
  | refuses | unresolved | known => exact .plain h nofun
  | loads => exact (dispatch_cases m _ _).enclosed h
  | requires => exact (dispatch_cases _ _ _).enclosed (h.of_tables rfl rfl)

theorem Effect.encloses {u : CodeUnit} {h h' : Host} {stack : List Activation}
    (he : Effect f u h h') (hh : h.Encloses n stack) (hf : h.Has n f.unit)
    (hu : h.units[f.unit]? = some u) : h'.Encloses n stack ∧ h'.Has n f.unit := by
  cases he with
  | none => exact ⟨hh, hf⟩
  | string | global => exact ⟨hh.of_tables rfl rfl, hf⟩
  | function name hc =>
    exact ⟨hh.defineFunction name ⟨Nat.le_add_right_of_le hf.1,
      hh.children f.unit u hf.1 hu _ hc⟩, hf⟩

theorem enclosed_fetch (h : m.host.Encloses n m.stack) (hf : m.host.Has n f.unit) :
    (m.fetch f).Enclosed n := by
  cases hb : m.builtinCall? f with
  | some call =>
    obtain ⟨dest, b, args⟩ := call
    rw [fetch_of_builtinCall? hb]
    exact enclosed_callBuiltin (m := m.push (.call f dest)) (h.push_call hf dest) b args
  | none =>
    generalize m.fetch f = m', fetch_executed hb = he
    cases he with
    | @goesOn u host f' hu heffect hunit =>
      obtain ⟨hhost, hhas⟩ := heffect.encloses h hf hu
      refine .plain hhost fun f'' hf'' => ?_
      cases hf''
      rw [hunit]
      exact hhas
    | calls dest args hget =>
      exact enclosed_enter (m := m.push (.call f dest)) (h.push_call hf dest)
        (h.functions _ _ hget) _ _ _
    | returns | halts | raises | lost => exact .plain (h.of_tables rfl rfl) nofun
    | stuck => exact .plain h nofun

theorem enclosed_returnTo {a : Activation} (h : m.host.Encloses n (a :: m.stack)) (value : Value) :
    (m.returnTo value a).Enclosed n := by
  cases a with
  | load l => exact enclosed_finishLoad h.pop l
  | compilation c => exact absurd List.mem_cons_self (h.settled c)
  | call f dest =>
    show (m.resume f dest value).Enclosed n
    unfold resume
    split
    · exact .plain (h.pop.of_tables rfl rfl) nofun
    · unfold assign? Frame.write?
      split
      · refine .plain h.pop fun f' hf' => ?_
        cases hf'
        exact h.frames f dest List.mem_cons_self
      · exact .plain h.pop nofun

theorem enclosed_raiseTo {a : Activation} (h : m.host.Encloses n (a :: m.stack)) (e : Exception) :
    (m.raiseTo e a).Enclosed n := by
  cases a with
  | load l => exact enclosed_failLoad h.pop l _
  | compilation c => exact absurd List.mem_cons_self (h.settled c)
  | call f dest => exact .plain (h.pop.of_tables rfl rfl) nofun

/-- What has been compiled is handed to the host that waits. -/
theorem enclosed_compiled {x : Machine} (hdone : x.isDone = true) {us : List CodeUnit} {w : World}
    (hi : x.Isolated us w) {h : Host} {stack : List Activation} (hh : h.Encloses n stack)
    (path : String) :
    (x.above (.compilation { load := l, path, outer := h } :: stack)).step.Enclosed n := by
  obtain ⟨host, world, control, waiting⟩ := x
  cases control with
  | running f => cases hdone
  | stuck => exact .compiling hi hh
  | returning value =>
    cases List.isEmpty_iff.1 hdone
    exact (loadCompiledUnits_cases ⟨h, world, .returning value, stack⟩ l path host.units).enclosed hh
  | raising e | failing e =>
    cases List.isEmpty_iff.1 hdone
    exact enclosed_failLoad (m := ⟨h, world, _, stack⟩) hh l _

/-- No step leads out of the units. -/
theorem Enclosed.step (h : m.Enclosed n) : m.step.Enclosed n := by
  cases h with
  | plain h hrunning =>
    obtain ⟨host, world, control, stack⟩ := m
    cases control with
    | running f => exact enclosed_fetch h (hrunning f rfl)
    | stuck => exact .plain h nofun
    | returning value =>
      cases stack with
      | nil => exact .plain h nofun
      | cons a stack => exact enclosed_returnTo (m := { host, world, control := _, stack }) h value
    | raising e =>
      cases stack with
      | nil => exact .plain h nofun
      | cons a stack => exact enclosed_raiseTo (m := { host, world, control := _, stack }) h e
    | failing e =>
      cases stack with
      | nil => exact .plain h nofun
      | cons a stack =>
        exact enclosed_raiseTo (m := { host, world, control := _, stack }) h e.toException
  | @compiling x us w h stack l path hi hh =>
    cases hdone : x.isDone with
    | true => exact enclosed_compiled hdone hi hh path
    | false =>
      rw [step_above x _ hdone]
      exact .compiling hi.step hh

/-- However far a run has come, it has not left the units. -/
theorem Enclosed.run (h : m.Enclosed n) (k : Nat) : (m.run k).Enclosed n :=
  run_induction (P := Enclosed n) (fun _ h => h.step) h k

end Machine

end ModuleHost
