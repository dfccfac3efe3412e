import ModuleHost.Proofs.Assembly.Attribution
import ModuleHost.Proofs.Machine.Abreast

/-!
# Files and lines are only reported

The file and the lines to which a unit is attributed go into the entries of backtraces and nowhere
else.  Hosts whose units differ in nothing but these run side by side and come to the same
(`Machine.run_sameCode`), but for the entries of the backtrace and the units themselves.
-/

namespace ModuleHost

/-- Units that differ in nothing but the file and the lines to which they are attributed. -/
def CodeUnit.SameCode (u v : CodeUnit) : Prop :=
  v = { u with filename := v.filename, lines := v.lines }

/-- Entries for the same scope, on whatever line of whatever file. -/
def SameScope (entry entry' : String) : Prop :=
  entry' = entry ∨ ∃ file line file' line' scope,
    entry = backtraceEntry file line scope ∧ entry' = backtraceEntry file' line' scope

/-- Entries for the same line and scope, in the one file or in the other. -/
def SameButFile (path path' : String) (entry entry' : String) : Prop :=
  entry' = entry ∨ ∃ line scope,
    entry = backtraceEntry path line scope ∧ entry' = backtraceEntry path' line scope

/-- Hosts that differ in nothing but the units with which their tables begin. -/
structure Host.SameBehind (us vs : List CodeUnit) (h h' : Host) : Prop where
  units : ∃ rest, h.units = us ++ rest ∧ h'.units = vs ++ rest
  others : h' = { h with units := h'.units }

theorem Host.Alike.sameBehind {L : Likeness} {h h' : Host} (ha : h.Alike L h')
    (hfirst : L.first = 0) (hsecond : L.second = 0) : h.SameBehind L.units L.units' h' := by
  have hfunctions := ha.functions_eq hfirst hsecond
  cases ha with
  | @mk us functions hunits _ =>
    have hf : functions = h.functions := hfunctions
    rw [hf]
    exact ⟨⟨us, hunits, rfl⟩, rfl⟩

namespace CodeUnit

variable {u v : CodeUnit}

theorem SameCode.alike (h : u.SameCode v) : u.Alike SameScope v := by
  rw [h]
  exact ⟨rfl, rfl, rfl, fun _ _ => Or.inr ⟨_, _, _, _, _, rfl, rfl⟩⟩

theorem alike_named (u : CodeUnit) (path path' : String) :
    (u.named path).Alike (SameButFile path path') (u.named path') :=
  ⟨rfl, rfl, rfl, fun _ _ => Or.inr ⟨_, _, rfl, rfl⟩⟩

theorem finalize_named (u : CodeUnit) (path : String) :
    (u.named path).finalize = u.finalize.named path := by
  show (if u.EndsInHalt then _ else _) = _
  unfold finalize
  split <;> rfl

/-- Units are put into the table with their code, and with the file to which they are attributed. -/
theorem placed_eq_map (path : String) (us : List CodeUnit) :
    placed path us = (us.modifyHead finalize).map (named path) := by
  cases us with
  | nil => rfl
  | cons u us => exact congrArg (· :: us.map (named path)) (u.finalize_named path)

theorem alike_placed (us : List CodeUnit) (path path' : String) :
    List.Forall₂ (CodeUnit.Alike (SameButFile path path')) (placed path us) (placed path' us) := by
  rw [placed_eq_map, placed_eq_map, List.forall₂_map_left_iff, List.forall₂_map_right_iff]
  exact List.forall₂_same.2 fun u _ => u.alike_named path path'

end CodeUnit

def Likeness.sameCode {us vs : List CodeUnit} (h : List.Forall₂ CodeUnit.SameCode us vs) :
    Likeness where
  units := us
  units' := vs
  entries := SameScope
  first_le := Nat.zero_le _
  second_le := Nat.zero_le _
  alike := h.imp fun _ _ hcode => hcode.alike
  entries_refl _ := Or.inl rfl
  counters_refl _ _ := trivial

/-- The machines, which have been started with the units `us` and `vs`, run in step, and come to the
same value, or to exceptions of the same class and the same message that have come through the same
scopes. -/
structure Machine.InStep (us vs : List CodeUnit) (m m' : Machine) : Prop where
  isDone : m'.isDone = m.isDone
  result : Option.Rel (SameResult (Exception.Alike SameScope)) m.value? m'.value?
  rest : m.isDone = true → m.value?.isSome = true →
    m.host.SameBehind us vs m'.host ∧ m'.world = m.world

/-- Files and lines do not influence what code does. -/
theorem Machine.run_sameCode (h : Host) (w : World) {us vs : List CodeUnit}
    (hcode : List.Forall₂ CodeUnit.SameCode us vs) (unit : Nat) (scope : Scope) (args : List Value)
    (receiver : Value) (n : Nat) :
    Machine.InStep us vs (((idle { h with units := us } w).enter unit scope args receiver).run n)
      (((idle { h with units := vs } w).enter unit scope args receiver).run n) := by
  have hhost := Host.Alike.of_units (L := .sameCode hcode) rfl rfl h []
  rw [List.append_nil, List.append_nil] at hhost
  have hidle : Machine.Alike (.sameCode hcode) (idle { h with units := us } w)
      (idle { h with units := vs } w) :=
    ⟨hhost, .returning .nil, .nil, trivial, fun _ => rfl⟩
  have hstart := hidle.enter ⟨unit, (Nat.zero_add _).symm, (Nat.zero_add _).symm⟩ scope args receiver
  have habreast := abreast_run_of_sameWorld trivial (.alike hstart) (fun _ _ _ _ _ => rfl) n
  refine ⟨habreast.isDone, habreast.sameResult, fun hdone hvalue => ?_⟩
  rcases habreast.alike_or_stuck hdone with halike | ⟨hstuck, -⟩
  · exact ⟨halike.host.sameBehind rfl rfl, halike.world.same trivial⟩
  · rw [value?, hstuck] at hvalue
    cases hvalue

end ModuleHost
