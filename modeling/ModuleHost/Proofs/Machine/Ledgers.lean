import ModuleHost.Proofs.Machine.Discipline

/-!
# Machines that differ in the ledger

Only `require` looks at the ledger, and only the end of a load that it has started writes to it.
Two machines stand `Beside` each other when they differ in nothing but the ledgers of their hosts,
of the one that runs and of those that wait for a compilation.  As long as the builtin `require` is
not called and no key is underway, they remain so (`Beside.run`), and the ledger of each of them is
the same all the time (`Keeps.run`).
-/

namespace ModuleHost

def Host.withLedger (h : Host) (l : Ledger) : Host := { h with ledger := l }

/-- What waits is the same, but for the ledger of a host that waits. -/
inductive Activation.Beside : Activation → Activation → Prop
  | same (a : Activation) : Beside a a
  | compilation (c : Compilation) (l : Ledger) :
      Beside (.compilation c) (.compilation { c with outer := c.outer.withLedger l })

namespace Machine

structure Beside (x y : Machine) : Prop where
  host : ∃ l, y.host = x.host.withLedger l
  world : y.world = x.world
  control : y.control = x.control
  stack : List.Forall₂ Activation.Beside x.stack y.stack

def called? (m : Machine) : Option Builtin :=
  match m.control with
  | .running f => (m.builtinCall? f).map fun call => call.2.1
  | _ => none

def Requires (m : Machine) : Prop := m.called? = some .require

instance (m : Machine) : Decidable m.Requires := inferInstanceAs (Decidable (_ = _))

variable {x y : Machine} {l : Load}

theorem beside_stack (stack : List Activation) : List.Forall₂ Activation.Beside stack stack :=
  List.forall₂_same.2 fun a _ => .same a

theorem beside_refl (m : Machine) : Beside m m :=
  ⟨⟨m.host.ledger, rfl⟩, rfl, rfl, beside_stack m.stack⟩

theorem beside_elsewhere (h : ∃ l, y = x.elsewhere id (fun _ => l) []) : Beside x y := by
  obtain ⟨l, rfl⟩ := h
  refine ⟨⟨l, rfl⟩, rfl, rfl, ?_⟩
  show List.Forall₂ Activation.Beside x.stack (x.stack ++ [])
  rw [List.append_nil]
  exact beside_stack x.stack

theorem Beside.above (h : Beside x y) {below below' : List Activation}
    (hbelow : List.Forall₂ Activation.Beside below below') :
    Beside (x.above below) (y.above below') :=
  ⟨h.host, h.world, h.control, List.rel_append h.stack hbelow⟩

theorem requires_iff : x.Requires ↔
    ∃ f dest args, x.control = .running f ∧ x.builtinCall? f = some (dest, .require, args) := by
  constructor
  · intro h
    rw [Requires, called?] at h
    split at h
    case h_1 f hc =>
      obtain ⟨⟨dest, b, args⟩, hcall, rfl⟩ := Option.map_eq_some_iff.1 h
      exact ⟨f, dest, args, hc, hcall⟩
    case h_2 => cases h
  · rintro ⟨f, dest, args, hc, hcall⟩
    rw [Requires, called?, hc]
    dsimp only
    rw [hcall]
    rfl

theorem RequiresNext.requires {f : Frame} (h : x.RequiresNext f) (hc : x.control = .running f) :
    x.Requires := by
  obtain ⟨u, i, name, args, hu, hi, hop, hn, ha, hf, hb⟩ := h
  have hcall := builtinCall?_of_instruction hu hi hop hn ha hf
  rw [hb] at hcall
  exact requires_iff.2 ⟨f, i.dest, args, hc, hcall⟩

theorem Beside.requires (h : Beside x y) (hy : y.Requires) : x.Requires := by
  obtain ⟨l, hhost⟩ := h.host
  have hsame : ∀ f, y.builtinCall? f = x.builtinCall? f := by
    intro f
    rw [builtinCall?, hhost]
    rfl
  obtain ⟨f, dest, args, hc, hcall⟩ := requires_iff.1 hy
  exact requires_iff.2 ⟨f, dest, args, h.control ▸ hc, hsame f ▸ hcall⟩

/-! ### The end of a step -/

/-- Each machine is seen as one on which nothing waits, with what waits below it. -/
theorem Beside.exists_eq_above (h : Beside x y) :
    ∃ (z : Machine) (l : Ledger), x = z.above x.stack
      ∧ y = (z.elsewhere id (fun _ => l) []).above y.stack := by
  obtain ⟨⟨l, hhost⟩, hworld, hcontrol, -⟩ := h
  refine ⟨{ x with stack := [] }, l, rfl, ?_⟩
  obtain ⟨host, world, control, stack⟩ := y
  obtain rfl : host = x.host.withLedger l := hhost
  obtain rfl : world = x.world := hworld
  obtain rfl : control = x.control := hcontrol
  rfl

theorem Beside.loadCompiledUnits (h : Beside x y) (hl : l.key = none) (path : String)
    (units : List CodeUnit) :
    Beside (x.loadCompiledUnits l path units) (y.loadCompiledUnits l path units) := by
  obtain ⟨z, ledger, hx, hy⟩ := h.exists_eq_above
  rw [hx, hy, loadCompiledUnits_above, loadCompiledUnits_above,
    loadCompiledUnits_elsewhere _ _ _ _ (Or.inl hl)]
  exact (beside_elsewhere ⟨ledger, rfl⟩).above h.stack

theorem Beside.failLoad (h : Beside x y) (hl : l.key = none) (e : LoadError) :
    Beside (x.failLoad l e) (y.failLoad l e) := by
  obtain ⟨z, ledger, hx, hy⟩ := h.exists_eq_above
  rw [hx, hy, failLoad_above, failLoad_above, failLoad_elsewhere _ _ _ _ (Or.inl hl)]
  exact (beside_elsewhere ⟨ledger, rfl⟩).above h.stack

theorem beside_compileAndLoad (m : Machine) (ledger : Ledger) (path source : String)
    (hl : l.Overlooks fun _ => ledger) :
    Beside (m.compileAndLoad l path source)
      ((m.elsewhere id (fun _ => ledger) []).compileAndLoad l path source) := by
  rcases hl with hl | hsame
  case inr =>
    rw [hsame, elsewhere, List.append_nil]
    exact beside_refl _
  have hbeside : Beside m (m.elsewhere id (fun _ => ledger) []) := beside_elsewhere ⟨ledger, rfl⟩
  unfold compileAndLoad
  cases Assembly.assemble source path with
  | error e => exact hbeside.failLoad hl _
  | ok units =>
    have hcompiler : (m.elsewhere id (fun _ => ledger) []).host.compiler = m.host.compiler := rfl
    dsimp only
    rw [hcompiler]
    split
    · -- the code runs in equal hosts, and the hosts that wait differ in the ledger
      rw [push_eq_above, push_eq_above, enterTopLevel_above, enterTopLevel_above]
      exact (beside_refl _).above (.cons (.compilation _ ledger) hbeside.stack)
    · exact hbeside.loadCompiledUnits hl path units

/-! ### Steps -/

/-- The stacks have the same calls and loads above the first compilation. -/
theorem exists_append_of_beside {s t : List Activation} (h : List.Forall₂ Activation.Beside s t) :
    ∃ upper below below', s = upper ++ below ∧ t = upper ++ below'
      ∧ (∀ c, .compilation c ∉ upper) ∧ List.Forall₂ Activation.Beside below below'
      ∧ ∀ a ∈ below.head?, ∃ c, a = .compilation c := by
  induction h with
  | nil => exact ⟨[], [], [], rfl, rfl, fun _ => List.not_mem_nil, .nil, nofun⟩
  | @cons a b s t hab hst ih =>
    by_cases hc : ∃ c, a = .compilation c
    · refine ⟨[], a :: s, b :: t, rfl, rfl, fun _ => List.not_mem_nil, .cons hab hst, ?_⟩
      intro a' ha'
      cases ha'
      exact hc
    · obtain ⟨upper, below, below', rfl, rfl, hupper, hbelow, htop⟩ := ih
      cases hab with
      | compilation c l => exact absurd ⟨c, rfl⟩ hc
      | same =>
        refine ⟨a :: upper, below, below', rfl, rfl, fun c hmem => ?_, hbelow, htop⟩
        rcases List.mem_cons.1 hmem with ha | hmem
        · exact hc ⟨c, ha.symm⟩
        · exact hupper c hmem

/-- Both machines are seen as what runs above the first compilation, with what waits from there on.
-/
theorem Beside.exists_split (h : Beside x y) :
    ∃ (z : Machine) (l : Ledger) (below below' : List Activation), x = z.above below
      ∧ y = (z.elsewhere id (fun _ => l) []).above below' ∧ (∀ c, .compilation c ∉ z.stack)
      ∧ List.Forall₂ Activation.Beside below below' ∧ ∀ a ∈ below.head?, ∃ c, a = .compilation c := by
  obtain ⟨⟨l, hhost⟩, hworld, hcontrol, hstack⟩ := h
  obtain ⟨upper, below, below', hx, hy, hupper, hbelow, htop⟩ := exists_append_of_beside hstack
  refine ⟨{ x with stack := upper }, l, below, below', ?_, ?_, hupper, hbelow, htop⟩
  · rw [Machine.above, ← hx]
  · obtain ⟨_, _, _, _⟩ := y
    subst hhost hworld hcontrol
    rw [Machine.above, elsewhere, List.append_nil, ← hy]
    rfl

theorem key?_eq_none_of_keys {stack : List Activation} (h : keys stack = []) {a : Activation}
    (ha : a ∈ stack) : a.key? = none :=
  List.filterMap_eq_nil_iff.1 h a ha

/-- A machine that has come to its end above what goes on waits for nothing else. -/
theorem eq_nil_of_isDone_above {z : Machine} {below : List Activation}
    (h : (z.above below).isDone = false) (hdone : z.isDone = true) : z.stack = [] ∧ below ≠ [] := by
  obtain ⟨host, w, control, stack⟩ := z
  cases control with
  | running f => cases hdone
  | stuck => cases h
  | returning value | raising e | failing e =>
    obtain rfl : stack = [] := List.isEmpty_iff.1 hdone
    refine ⟨rfl, ?_⟩
    rintro rfl
    cases h

theorem Beside.isDone (h : Beside x y) : y.isDone = x.isDone := by
  have hempty : y.stack.isEmpty = x.stack.isEmpty := by
    have hstack := h.stack
    generalize x.stack = s, y.stack = t at hstack
    cases hstack <;> rfl
  rw [Machine.isDone, Machine.isDone, h.control, hempty]

/-- The step of a machine that has come to its end above a compilation. -/
theorem Beside.step_compilation {z : Machine} (hz : z.stack = []) (hdone : z.isDone = true)
    (ledger : Ledger) {c c' : Compilation} (hkey : c.load.key = none) {rest rest' : List Activation}
    (hc : Activation.Beside (.compilation c) (.compilation c'))
    (hrest : List.Forall₂ Activation.Beside rest rest') :
    Beside (z.above (.compilation c :: rest)).step
      ((z.elsewhere id (fun _ => ledger) []).above (.compilation c' :: rest')).step := by
  have houter : ∃ l, c' = { c with outer := c.outer.withLedger l } := by
    cases hc with
    | same => exact ⟨c.outer.ledger, rfl⟩
    | compilation _ l => exact ⟨l, rfl⟩
  obtain ⟨l, rfl⟩ := houter
  obtain ⟨h, w, result, stack⟩ := z
  obtain rfl : stack = [] := hz
  have hwaits : Beside ⟨c.outer, w, result, rest⟩ ⟨c.outer.withLedger l, w, result, rest'⟩ :=
    ⟨⟨l, rfl⟩, rfl, rfl, hrest⟩
  cases result with
  | running f => cases hdone
  | stuck => exact ⟨⟨ledger, rfl⟩, rfl, rfl, .cons (.compilation c l) hrest⟩
  | returning value => exact hwaits.loadCompiledUnits hkey c.path h.units
  | raising e | failing e => exact hwaits.failLoad hkey _

/-- A machine that calls no `require` and has no key underway takes the same step whatever stands in
the ledgers. -/
theorem Beside.step (h : Beside x y) (hkeys : keys x.stack = []) (hrequires : ¬ x.Requires) :
    Beside x.step y.step := by
  cases hrunning : x.isDone with
  | true => rwa [step_of_isDone hrunning, step_of_isDone (h.isDone.trans hrunning)]
  | false =>
    obtain ⟨z, ledger, below, below', rfl, rfl, hupper, hbelow, htop⟩ := h.exists_split
    have hnone : ∀ a ∈ z.stack ++ below, a.key? = none := fun a => key?_eq_none_of_keys hkeys
    cases hdone : z.isDone with
    | false =>
      have hdone' : (z.elsewhere id (fun _ => ledger) []).isDone = false := by
        rw [elsewhere, List.append_nil]
        exact hdone
      rw [step_above z below hdone, step_above _ below' hdone']
      refine Beside.above ?_ hbelow
      refine rel_step z id (fun _ => ledger) [] (R := Beside)
        (fun h => beside_elsewhere ⟨ledger, h⟩)
        (fun m l path source => beside_compileAndLoad m ledger path source) hdone ?_ ?_ ?_
      · exact fun c hc => hupper c (List.mem_of_head? hc)
      · exact fun l hl => Or.inl (hnone _ (List.mem_append_left _ (List.mem_of_head? hl)))
      · exact fun f hf hnext => absurd (RequiresNext.requires hnext hf) hrequires
    | true =>
      obtain ⟨hstack, hne⟩ := eq_nil_of_isDone_above hrunning hdone
      cases hbelow with
      | nil => exact absurd rfl hne
      | @cons a a' rest rest' ha hrest =>
        obtain ⟨c, rfl⟩ := htop _ rfl
        have hkey : c.load.key = none := hnone _ (List.mem_append_right _ List.mem_cons_self)
        cases ha with
        | same => exact step_compilation hstack hdone ledger hkey (.same _) hrest
        | compilation _ l => exact step_compilation hstack hdone ledger hkey (.compilation c l) hrest

/-! ### The ledger -/

/-- Nothing happens to a key if none is underway and none is required. -/
theorem events_of_keys (hkeys : keys x.stack = []) (hrequires : ¬ x.Requires) : x.events = [] := by
  have hnone : ∀ {a : Activation} {stack : List Activation}, x.stack = a :: stack →
      a.key? = none := by
    intro a stack hstack
    exact key?_eq_none_of_keys hkeys (hstack ▸ List.mem_cons_self)
  unfold events
  split
  case h_1 f hc =>
    split
    case h_1 hcall => exact absurd (requires_iff.2 ⟨f, _, _, hc, hcall⟩) hrequires
    case h_2 => rfl
  case h_2 hstack => rw [show Load.key _ = none from hnone hstack]; rfl
  case h_3 hstack => rw [show (Compilation.load _).key = none from hnone hstack, failures_none]
  case h_4 hstack | h_5 hstack => rw [hnone hstack]; rfl
  case h_6 => rfl

/-- The host that loads has the ledger `l`, and no key is underway. -/
structure Keeps (l : Ledger) (m : Machine) : Prop where
  secluded : m.Secluded
  books : m.books = ⟨l, []⟩

namespace Keeps

variable {ledger : Ledger}

theorem keys (h : x.Keeps ledger) : Machine.keys x.stack = [] := congrArg Books.underway h.books

theorem loader (h : x.Keeps ledger) : x.loader.ledger = ledger := congrArg Books.ledger h.books

theorem of_obeys {retry : Bool} (h : Obeys retry ⟨ledger, []⟩ [] x) : x.Keeps ledger :=
  ⟨h.secluded, h.moves.eq_of_nil⟩

theorem step (h : x.Keeps ledger) (hrequires : ¬ x.Requires) : x.step.Keeps ledger := by
  have hobeys := step_obeys h.secluded
  rw [events_of_keys h.keys hrequires, h.books] at hobeys
  exact of_obeys hobeys

end Keeps

/-- Two machines of which neither calls `require` go the same way beside each other, each with its
own ledger. -/
theorem Beside.run {l l' : Ledger} (h : Beside x y) (hx : x.Keeps l) (hy : y.Keeps l')
    (hrequires : ∀ k, ¬ (x.run k).Requires) (n : Nat) :
    Beside (x.run n) (y.run n) ∧ (x.run n).Keeps l ∧ (y.run n).Keeps l' := by
  induction n with
  | zero => exact ⟨h, hx, hy⟩
  | succ n ih =>
    obtain ⟨hbeside, hx, hy⟩ := ih
    rw [run_succ', run_succ']
    exact ⟨hbeside.step hx.keys (hrequires n), hx.step (hrequires n),
      hy.step fun hrequire => hrequires n (hbeside.requires hrequire)⟩

end Machine

end ModuleHost
