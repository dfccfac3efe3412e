import ModuleHost.Proofs.Machine.Isolated
import ModuleHost.Proofs.Machine.LoadedSources

/-!
# Machines side by side

Two machines that run the same code may differ in what the code cannot see: in the files and lines
that their units are attributed to, in how many other units stand before those that they run, in the
temporary files of their loads.  A `Likeness` says with which units the two tables begin and which
entries of backtraces stand for each other; behind these units the tables are the same.  While code
runs that is being compiled, in a host of its own, the machines are alike there and in what waits
below.
-/

namespace ModuleHost

def backtraceEntry (file : String) (line : Nat) (scope : Scope) : String :=
  file ++ ":" ++ toString line ++ ":in " ++ scope.label

def CodeUnit.location (u : CodeUnit) (position : Nat) (scope : Scope) : String :=
  backtraceEntry (u.filename.getD "-") (u.lineAt position).toNat scope

/-- Units with the same code, whose entries in backtraces stand for each other. -/
structure CodeUnit.Alike (entries : String → String → Prop) (u v : CodeUnit) : Prop where
  instructions : v.instructions = u.instructions
  symbols : v.symbols = u.symbols
  children : v.children = u.children
  location : ∀ position scope, entries (u.location position scope) (v.location position scope)

/-- How two hosts may differ that run the same code. -/
structure Likeness where
  /-- The units with which the first table begins. -/
  units : List CodeUnit := []
  /-- The units with which the second table begins. -/
  units' : List CodeUnit := []
  /-- The number of units of the first host that no code runs. -/
  first : Nat := 0
  /-- The number of units of the second host that no code runs. -/
  second : Nat := 0
  /-- Which entries of backtraces stand for each other. -/
  entries : String → String → Prop := Eq
  /-- Which numbers of the next temporary file may stand against each other. -/
  counters : Nat → Nat → Prop := fun _ _ => True
  /-- Whether the worlds are the same in both, and so the temporary files. -/
  sameWorld : Prop := True
  first_le : first ≤ units.length
  second_le : second ≤ units'.length
  alike : List.Forall₂ (CodeUnit.Alike entries) (units.drop first) (units'.drop second)
  entries_refl : ∀ entry, entries entry entry
  counters_refl : sameWorld → ∀ n, counters n n

namespace Likeness

variable (L : Likeness)

def Index (i j : Nat) : Prop := ∃ k, i = L.first + k ∧ j = L.second + k

def Bound (p q : String × Nat) : Prop := q.1 = p.1 ∧ L.Index p.2 q.2

/-- Unless something is being compiled, the unit that the machine runs is there, or it is missing at
the same index in both machines. -/
def Knows (m : Machine) : Prop :=
  (∀ c, Activation.compilation c ∉ m.stack) →
    ∀ f, m.control = .running f → m.host.units[f.unit]? = none → L.first = L.second

/-- The tables may begin with no units, all of which are run. -/
theorem zero_le_length_nil : 0 ≤ ([] : List CodeUnit).length := Nat.le_refl 0

/-- The hosts have the same units at the same indices. -/
def plain : Likeness where
  entries := L.entries
  counters := L.counters
  sameWorld := L.sameWorld
  first_le := zero_le_length_nil
  second_le := zero_le_length_nil
  alike := .nil
  entries_refl := L.entries_refl
  counters_refl := L.counters_refl

end Likeness

/-! ### What is alike -/

inductive Frame.Alike (L : Likeness) (f : Frame) : Frame → Prop
  | mk {unit : Nat} (h : L.Index f.unit unit) : Alike L f { f with unit }

/-- Exceptions that differ in nothing but the entries of their backtraces. -/
inductive Exception.Alike (entries : String → String → Prop) (e : Exception) : Exception → Prop
  | mk {backtrace : List String} (h : List.Forall₂ entries e.backtrace backtrace) :
      Alike entries e { e with backtrace }

/-- Results are the same if they are the same value, or errors of which one stands for the other. -/
inductive SameResult {ε α : Type} (errors : ε → ε → Prop) : Except ε α → Except ε α → Prop
  | ok (a : α) : SameResult errors (.ok a) (.ok a)
  | error {e e' : ε} (he : errors e e') : SameResult errors (.error e) (.error e')

/-- Behind the units with which they begin the tables are the same. -/
inductive Host.Alike (L : Likeness) (h : Host) : Host → Prop
  | mk {us : List CodeUnit} {functions : Bindings Nat} (hunits : h.units = L.units ++ us)
      (hfunctions : List.Forall₂ L.Bound h.functions.entries functions.entries) :
      Alike L h { h with units := L.units' ++ us, functions }

/-- Worlds are alike whatever files there are, unless they have to be the same. -/
structure World.Alike (L : Likeness) (w w' : World) : Prop where
  counters : L.counters w.nextArtifact w'.nextArtifact
  same : L.sameWorld → w' = w

/-- Loads are alike whatever their temporary files are, unless the worlds have to be the same. -/
inductive Activation.Alike (L : Likeness) : Activation → Activation → Prop
  | call {f f' : Frame} (hf : f.Alike L f') (dest : UInt8) : Alike L (.call f dest) (.call f' dest)
  | load (l : Load) {artifact? : Option Artifact} (ha : L.sameWorld → artifact? = l.artifact) :
      Alike L (.load l) (.load { l with artifact := artifact? })

/-- Failures are alike if code sees them as alike exceptions. -/
inductive Control.Alike (L : Likeness) : Control → Control → Prop
  | running {f f' : Frame} (hf : f.Alike L f') : Alike L (.running f) (.running f')
  | returning (value : Value) : Alike L (.returning value) (.returning value)
  | raising {e e' : Exception} (he : e.Alike L.entries e') : Alike L (.raising e) (.raising e')
  | failing {e e' : LoadError} (he : e.toException.Alike L.entries e'.toException) :
      Alike L (.failing e) (.failing e')
  | stuck : Alike L .stuck .stuck

structure Machine.Alike (L : Likeness) (m m' : Machine) : Prop where
  host : m.host.Alike L m'.host
  control : m.control.Alike L m'.control
  stack : List.Forall₂ (Activation.Alike L) m.stack m'.stack
  world : m.world.Alike L m'.world

/-- The machines are alike, or both run code that is being compiled, above alike hosts that wait. -/
inductive Machine.Abreast (L : Likeness) : Machine → Machine → Prop
  | alike {m m' : Machine} (h : m.Alike L m') : Abreast L m m'
  | compiling {x x' : Machine} {us : List CodeUnit} {w w' : World} {h h' : Host}
      {stack stack' : List Activation} {l : Load} {artifact? : Option Artifact} {path : String}
      (hx : x.Alike L.plain x') (hi : x.Isolated us w) (hi' : x'.Isolated us w')
      (hus : Bytecode.Lossless us) (hw : w.Keeps l.artifact) (hw' : w'.Keeps artifact?)
      (hh : h.Alike L h') (hs : List.Forall₂ (Activation.Alike L) stack stack')
      (ha : L.sameWorld → artifact? = l.artifact) :
      Abreast L (x.above (.compilation { load := l, path, outer := h } :: stack))
        (x'.above (.compilation
          { load := { l with artifact := artifact? }, path, outer := h' } :: stack'))

variable {L : Likeness}

namespace Likeness

theorem Index.add {i j : Nat} (h : L.Index i j) (k : Nat) : L.Index (i + k) (j + k) := by
  obtain ⟨d, rfl, rfl⟩ := h
  exact ⟨d + k, Nat.add_assoc .., Nat.add_assoc ..⟩

theorem rel_getElem? {α : Type} {R : α → α → Prop} {xs ys : List α} (h : List.Forall₂ R xs ys)
    (k : Nat) : Option.Rel R xs[k]? ys[k]? := by
  induction h generalizing k with
  | nil => exact .none
  | cons hu _ ih =>
    cases k with
    | zero => exact .some hu
    | succ k => exact ih k

theorem rel_lookup {xs ys : List (String × Nat)} (h : List.Forall₂ L.Bound xs ys)
    (name : String) : Option.Rel L.Index (xs.lookup name) (ys.lookup name) := by
  induction h with
  | nil => exact .none
  | @cons p q xs ys hb _ ih =>
    obtain ⟨hname, hindex⟩ := hb
    rw [List.lookup_cons, List.lookup_cons, hname]
    cases name == p.1 with
    | true => exact .some hindex
    | false => exact ih

theorem forall₂_put {xs ys : List (String × Nat)} (h : List.Forall₂ L.Bound xs ys) (name : String)
    {i j : Nat} (hi : L.Index i j) :
    List.Forall₂ L.Bound (Bindings.put name i xs) (Bindings.put name j ys) := by
  induction h with
  | nil => exact .cons ⟨rfl, hi⟩ .nil
  | @cons p q xs ys hb hrest ih =>
    obtain ⟨hname, hindex⟩ := hb
    rw [Bindings.put, Bindings.put, hname]
    split
    · exact .cons ⟨rfl, hi⟩ hrest
    · exact .cons ⟨hname, hindex⟩ ih

end Likeness

theorem CodeUnit.Alike.refl (u : CodeUnit) : u.Alike L.entries u :=
  ⟨rfl, rfl, rfl, fun _ _ => L.entries_refl _⟩

namespace Exception.Alike

variable {e e' : Exception}

theorem refl (e : Exception) : e.Alike L.entries e := .mk (List.forall₂_same.2 fun _ _ => L.entries_refl _)

theorem eq (h : e.Alike Eq e') : e' = e := by
  obtain ⟨hb⟩ := h
  rw [List.forall₂_eq_eq_eq] at hb
  rw [← hb]

theorem leaving (h : e.Alike L.entries e') {entry entry' : String} (he : L.entries entry entry') :
    (e.leaving entry).Alike L.entries (e'.leaving entry') := by
  obtain ⟨hb⟩ := h
  exact .mk (List.rel_append hb (.cons he .nil))

end Exception.Alike

namespace Frame.Alike

variable {f f' : Frame}

theorem jumpTo (h : f.Alike L f') (position : Nat) :
    (f.jumpTo position).Alike L (f'.jumpTo position) := by
  obtain ⟨hi⟩ := h
  exact .mk (f := f.jumpTo position) hi

theorem advance (h : f.Alike L f') : f.advance.Alike L f'.advance := by
  obtain ⟨hi⟩ := h
  exact .mk (f := f.advance) hi

theorem withRegisters (h : f.Alike L f') (registers : Registers) :
    Frame.Alike L { f with registers } { f' with registers } := by
  obtain ⟨hi⟩ := h
  exact .mk (f := { f with registers }) hi

theorem registers_eq (h : f.Alike L f') : f'.registers = f.registers := by
  obtain ⟨hi⟩ := h
  rfl

theorem receiver_eq (h : f.Alike L f') : f'.receiver = f.receiver := by
  obtain ⟨hi⟩ := h
  rfl

theorem index (h : f.Alike L f') : L.Index f.unit f'.unit := by
  obtain ⟨hi⟩ := h
  exact hi

end Frame.Alike

/-! ### Hosts -/

namespace Host.Alike

variable {h h' : Host} {i j : Nat}

/-- What looks neither at units nor at functions sees no difference. -/
theorem read (ha : h.Alike L h') {α : Type} (f : Host → α)
    (hf : ∀ (x : Host) units functions, f { x with units, functions } = f x) : f h' = f h := by
  cases ha with
  | mk => exact hf h _ _

/-- A change that looks neither at units nor at functions. -/
theorem change (ha : h.Alike L h') {f : Host → Host}
    (hf : ∀ (x : Host) units functions,
      f { x with units, functions } = { f x with units, functions }) : (f h).Alike L (f h') := by
  cases ha with
  | @mk us functions hunits hfunctions =>
    have hsame : f h = { f h with units := h.units, functions := h.functions } :=
      hf h h.units h.functions
    have hu : (f h).units = h.units := by rw [hsame]
    have hn : (f h).functions = h.functions := by rw [hsame]
    rw [hf h (L.units' ++ us) functions]
    exact .mk (hu.trans hunits) (hn ▸ hfunctions)

theorem leaveFrame (ha : h.Alike L h') : h.leaveFrame.Alike L h'.leaveFrame :=
  ha.change fun _ _ _ => rfl

/-- From the first unit that code runs on the tables hold units with the same code. -/
theorem tables (ha : h.Alike L h') :
    L.first ≤ h.units.length ∧ L.second ≤ h'.units.length
      ∧ List.Forall₂ (CodeUnit.Alike L.entries) (h.units.drop L.first)
        (h'.units.drop L.second) := by
  cases ha with
  | @mk us functions hunits hfunctions =>
    rw [hunits, List.length_append, List.length_append,
      List.drop_append_of_le_length L.first_le, List.drop_append_of_le_length L.second_le]
    exact ⟨Nat.le_add_right_of_le L.first_le, Nat.le_add_right_of_le L.second_le,
      List.rel_append L.alike (List.forall₂_same.2 fun u _ => .refl u)⟩

/-- What is in one table at an index is in the other one at the other index. -/
theorem units_at (ha : h.Alike L h') (hi : L.Index i j) :
    Option.Rel (CodeUnit.Alike L.entries) h.units[i]? h'.units[j]? := by
  obtain ⟨-, -, hunits⟩ := ha.tables
  obtain ⟨k, rfl, rfl⟩ := hi
  rw [← List.getElem?_drop, ← List.getElem?_drop]
  exact Likeness.rel_getElem? hunits k

/-- The index of the next unit. -/
theorem next (ha : h.Alike L h') : L.Index h.units.length h'.units.length := by
  obtain ⟨hfirst, hsecond, hunits⟩ := ha.tables
  refine ⟨(h.units.drop L.first).length, ?_, ?_⟩
  · rw [List.length_drop, Nat.add_sub_cancel' hfirst]
  · rw [hunits.length_eq, List.length_drop, Nat.add_sub_cancel' hsecond]

theorem appendUnits (ha : h.Alike L h') (us : List CodeUnit) :
    (h.appendUnits us).Alike L (h'.appendUnits us) := by
  cases ha with
  | @mk vs functions hunits hfunctions =>
    have happend : (h.appendUnits us).units = L.units ++ (vs ++ us) := by
      rw [Host.appendUnits, hunits, List.append_assoc]
    have hmk := Host.Alike.mk happend hfunctions
    rwa [← List.append_assoc] at hmk

theorem function (ha : h.Alike L h') (name : String) :
    Option.Rel L.Index (h.functions.get? name) (h'.functions.get? name) := by
  obtain ⟨hunits, hfunctions⟩ := ha
  exact Likeness.rel_lookup hfunctions name

theorem defineFunction (ha : h.Alike L h') (name : String) (hi : L.Index i j) :
    (h.defineFunction name i).Alike L (h'.defineFunction name j) := by
  obtain ⟨hunits, hfunctions⟩ := ha
  exact .mk (h := h.defineFunction name i) hunits (Likeness.forall₂_put hfunctions name hi)

/-- Where the same indices stand for each other, so do the same functions. -/
theorem of_units (hfirst : L.first = 0) (hsecond : L.second = 0) (h : Host)
    (us : List CodeUnit) :
    ({ h with units := L.units ++ us } : Host).Alike L { h with units := L.units' ++ us } := by
  refine .mk (h := { h with units := L.units ++ us }) rfl
    (List.forall₂_same.2 fun p _ => ⟨rfl, p.2, ?_, ?_⟩)
  · rw [hfirst, Nat.zero_add]
  · rw [hsecond, Nat.zero_add]

theorem functions_eq (ha : h.Alike L h') (hfirst : L.first = 0) (hsecond : L.second = 0) :
    h'.functions = h.functions := by
  cases ha with
  | @mk us functions hunits hfunctions =>
    have hbound : List.Forall₂ Eq h.functions.entries functions.entries := by
      refine hfunctions.imp ?_
      rintro ⟨name, i⟩ ⟨_, j⟩ ⟨rfl, k, hi, hj⟩
      rw [hfirst, ← hsecond, ← hj] at hi
      exact congrArg (Prod.mk _) hi
    rw [List.forall₂_eq_eq_eq] at hbound
    exact congrArg Bindings.mk hbound.symm

/-- Hosts without anything but the same units are alike. -/
theorem isolated (ha : h.Alike L h') (us : List CodeUnit) :
    (h.isolated.appendUnits us).Alike L.plain (h'.isolated.appendUnits us) := by
  rw [ha.read (·.isolated) fun _ _ _ => rfl]
  exact .mk (h := h.isolated.appendUnits us) rfl .nil

/-- Where alike frames are. -/
theorem location (ha : h.Alike L h') {f f' : Frame} (hf : f.Alike L f') :
    L.entries (f.location h.units) (f'.location h'.units) := by
  cases hf with
  | @mk unit hi =>
    have hrel := ha.units_at hi
    unfold Frame.location
    dsimp only
    generalize h.units[f.unit]? = u?, h'.units[unit]? = v? at hrel
    cases hrel with
    | none => exact L.entries_refl _
    | some hu => exact hu.location f.position f.scope

end Host.Alike

/-! ### Worlds -/

/-- Two computations that succeed alike succeed both or fail both. -/
theorem ok_or_error_of_ok_iff {α ε : Type} {r r' : Except ε α} (h : ∀ x, r = .ok x ↔ r' = .ok x) :
    (∃ x, r = .ok x ∧ r' = .ok x) ∨ ∃ e e', r = .error e ∧ r' = .error e' := by
  cases r with
  | ok x => exact Or.inl ⟨x, rfl, (h x).1 rfl⟩
  | error e =>
    cases r' with
    | ok x => cases (h x).2 rfl
    | error e' => exact Or.inr ⟨e, e', rfl, rfl⟩

theorem FileTree.contentsOf_eq_ok_iff {t : FileTree} {cwd : Location} {path : String}
    {contents : List UInt8} :
    t.contentsOf cwd path = .ok contents ↔ t.openEntry cwd path = .ok (.file contents) := by
  rw [contentsOf]
  cases t.openEntry cwd path with
  | error e =>
    constructor
    · intro h
      cases h
    · intro h
      cases h
  | ok e =>
    cases e with
    | file contents' =>
      constructor
      · intro h
        cases h
        rfl
      · intro h
        cases h
        rfl
    | directory | link target =>
      constructor
      · intro h
        cases h
      · intro h
        cases h

theorem World.readText_eq_ok_iff {w : World} {path source : String} :
    w.readText path = .ok source
      ↔ ∃ contents, w.files.openEntry w.cwd path = .ok (.file contents)
        ∧ Bytes.toText? contents = some source := by
  rw [readText]
  constructor
  · intro h
    cases hc : w.files.contentsOf w.cwd path with
    | error e =>
      rw [hc] at h
      cases h
    | ok contents =>
      rw [hc] at h
      simp only [bind, Except.bind] at h
      cases ht : Bytes.toText? contents with
      | none =>
        rw [ht] at h
        cases h
      | some text =>
        rw [ht] at h
        cases h
        exact ⟨contents, FileTree.contentsOf_eq_ok_iff.1 hc, ht⟩
  · rintro ⟨contents, hopen, ht⟩
    rw [FileTree.contentsOf_eq_ok_iff.2 hopen]
    simp only [bind, Except.bind, ht]
    rfl

theorem World.nextArtifact_discard (w : World) (artifact? : Option Artifact) :
    (w.discard artifact?).nextArtifact = w.nextArtifact := by
  cases artifact? <;> rfl

namespace World.Alike

variable {w w' : World} {artifact? artifact?' : Option Artifact}

theorem discard (h : w.Alike L w') (ha : L.sameWorld → artifact?' = artifact?) :
    (w.discard artifact?).Alike L (w'.discard artifact?') where
  counters := by
    rw [World.nextArtifact_discard, World.nextArtifact_discard]
    exact h.counters
  same hs := by rw [h.same hs, ha hs]

theorem writeArtifact (h : w.Alike L w') {a a' : Artifact} (ha : L.sameWorld → a' = a)
    (bytes : List UInt8) : (w.writeArtifact a bytes).Alike L (w'.writeArtifact a' bytes) where
  counters := h.counters
  same hs := by rw [h.same hs, ha hs]

end World.Alike

inductive World.Creates (L : Likeness) (config : LoaderConfig) (w w' : World) : Prop
  | made {a a' : Artifact} {v v' : World} (h : w.createArtifact config = (.ok a, v))
      (h' : w'.createArtifact config = (.ok a', v')) (ha : L.sameWorld → a' = a)
      (hv : v.Alike L v') : Creates L config w w'
  | missed {e e' : FileError} {v v' : World} (h : w.createArtifact config = (.error e, v))
      (h' : w'.createArtifact config = (.error e', v')) (hv : v.Alike L v') : Creates L config w w'

structure World.AgreesAt (L : Likeness) (config : LoaderConfig) (path : String) (w w' : World) :
    Prop where
  opens : ∀ e, w.files.openEntry w.cwd path = .ok e ↔ w'.files.openEntry w'.cwd path = .ok e
  creates : World.Creates L config w w'

structure World.Agrees (L : Likeness) (h : Host) (name : String) (w w' : World) : Prop where
  resolve : w'.resolve h.searchPath name = w.resolve h.searchPath name
  module : ∀ path, w.resolve h.searchPath name = .ok path → w.AgreesAt L h.config path w'

theorem World.AgreesAt.readText {config : LoaderConfig} {path : String} {w w' : World}
    (h : w.AgreesAt L config path w') (source : String) :
    w.readText path = .ok source ↔ w'.readText path = .ok source := by
  rw [World.readText_eq_ok_iff, World.readText_eq_ok_iff]
  simp only [h.opens]

/-- A world agrees with itself. -/
theorem World.Agrees.refl (hs : L.sameWorld) (h : Host) (name : String) (w : World) :
    w.Agrees L h name w := by
  refine ⟨rfl, fun path _ => ⟨fun e => Iff.rfl, ?_⟩⟩
  rcases hc : w.createArtifact h.config with ⟨result, v⟩
  have hv : v.Alike L v := ⟨L.counters_refl hs _, fun _ => rfl⟩
  cases result with
  | error e => exact .missed hc hc hv
  | ok a => exact .made hc hc (fun _ => rfl) hv

end ModuleHost
