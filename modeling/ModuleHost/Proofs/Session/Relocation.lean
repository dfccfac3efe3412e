import ModuleHost.Proofs.Machine.Abreast
import ModuleHost.Proofs.Machine.Enclosed
import ModuleHost.Proofs.Session.Safety

/-!
# A group of units runs wherever it stands

A group of units refers to its units by distance only, and so does everything that it loads.
Invoked behind any other units it takes the same steps, and comes to the same result and the same
host; only the functions that it has bound stand for units that are as far apart as the two groups
(`invoke_relocatable`).
-/

namespace ModuleHost

/-- The host with these units in its table and without functions. -/
def Host.onto (h : Host) (others : List CodeUnit) : Host :=
  { h with units := others, functions := {} }

namespace Machine

/-- The group stands behind the other units of the host, and its first unit has been invoked;
`invoke` runs this machine. -/
def startGroup (h : Host) (w : World) (others us : List CodeUnit) (scope : Scope)
    (args : List Value) (receiver : Value) : Machine :=
  (idle ((h.onto others).appendUnits us) w).enter others.length scope args receiver

/-- The machines have come to the same, the one behind the units `others` and the other one behind
the units `others'`. -/
structure Relocated (others others' : List CodeUnit) (m m' : Machine) : Prop where
  units : ∃ us, m.host.units = others ++ us ∧ m'.host.units = others' ++ us
  functions : List.Forall₂
    (fun p q => q.1 = p.1 ∧ ∃ k, p.2 = others.length + k ∧ q.2 = others'.length + k)
    m.host.functions.entries m'.host.functions.entries
  rest : m'.host = { m.host with units := m'.host.units, functions := m'.host.functions }
  world : m'.world = m.world

end Machine

/-! ### The same code behind other units -/

def Likeness.behindUnits (others others' : List CodeUnit) : Likeness where
  units := others
  units' := others'
  first := others.length
  second := others'.length
  first_le := Nat.le_refl _
  second_le := Nat.le_refl _
  alike := by
    rw [List.drop_length, List.drop_length]
    exact .nil
  entries_refl _ := rfl
  counters_refl _ _ := trivial

open Likeness (behindUnits)
open Machine

variable {others others' us : List CodeUnit}

theorem Host.alike_onto (h : Host) (others others' us : List CodeUnit) :
    ((h.onto others).appendUnits us).Alike (behindUnits others others')
      ((h.onto others').appendUnits us) :=
  .mk (h := (h.onto others).appendUnits us) rfl .nil

namespace Machine

variable {m m' : Machine}

theorem Alike.relocated (h : m.Alike (behindUnits others others') m') :
    m.Relocated others others' m' := by
  obtain ⟨host, world, control, stack⟩ := m
  obtain ⟨host', world', control', stack'⟩ := m'
  obtain ⟨hhost, -, -, hworld⟩ := h
  cases hhost with
  | @mk vs functions hunits hfunctions =>
    exact ⟨⟨vs, hunits, rfl⟩, hfunctions, rfl, hworld.same trivial⟩

/-- A group whose children lie in it is enclosed behind the other units. -/
theorem enclosed_startGroup (hne : us ≠ [])
    (hchildren : ∀ k u, us[k]? = some u → ∀ offset ∈ u.children, k + offset.toNat < us.length)
    (h : Host) (w : World) (others : List CodeUnit) (scope : Scope) (args : List Value)
    (receiver : Value) :
    (startGroup h w others us scope args receiver).Enclosed others.length := by
  have hothers : (h.onto others).Encloses others.length [] := by
    refine ⟨Nat.le_refl _, ?_, ?_, nofun, nofun⟩
    · intro name i hi
      cases hi
    · intro i u hi hu
      have hnone : others[i]? = none := List.getElem?_eq_none hi
      cases hnone.symm.trans hu
  refine enclosed_enter (hothers.appendUnits hchildren) ⟨Nat.le_refl _, ?_⟩ _ _ _
  have hpositive : 0 < us.length := List.length_pos_iff.2 hne
  show others.length < (others ++ us).length
  rw [List.length_append]
  omega

/-- Code that is enclosed never looks for a unit that is not there. -/
theorem Enclosed.knows {n : Nat} (he : m.Enclosed n) (L : Likeness) : L.Knows m := by
  intro hsettled f hf hmissing
  cases he with
  | plain h hrunning =>
    have hlt := (hrunning f hf).2
    exact absurd hlt (Nat.not_lt.2 (List.getElem?_eq_none_iff.1 hmissing))
  | compiling => exact absurd (List.mem_append_right _ List.mem_cons_self) (hsettled _)

end Machine

/-- A group of units whose children lie in the group comes to the same behind any other units: to
the same value or exception, backtrace included, and to the same host and the same files, with
functions of the same names, which stand for the units at the same distance from where the group
begins. -/
theorem invoke_relocatable (hne : us ≠ [])
    (hchildren : ∀ k u, us[k]? = some u → ∀ offset ∈ u.children, k + offset.toNat < us.length)
    (h : Host) (w : World) (others others' : List CodeUnit) (scope : Scope) (args : List Value)
    (receiver : Value) (n : Nat) :
    let m := (startGroup h w others us scope args receiver).run n
    let m' := (startGroup h w others' us scope args receiver).run n
    m'.isDone = m.isDone ∧ m'.value? = m.value?
      ∧ (m.isDone = true → m.value?.isSome = true → m.Relocated others others' m') := by
  intro m m'
  have hidle : Machine.Alike (behindUnits others others')
      (idle ((h.onto others).appendUnits us) w) (idle ((h.onto others').appendUnits us) w) :=
    ⟨h.alike_onto others others' us, .returning .nil, .nil, trivial, fun _ => rfl⟩
  have hstart := hidle.enter ⟨0, rfl, rfl⟩ scope args receiver
  have henclosed := enclosed_startGroup hne hchildren h w others scope args receiver
  have habreast : m.Abreast (behindUnits others others') m' :=
    abreast_run_of_sameWorld trivial (.alike hstart) (fun k => (henclosed.run k).knows _) n
  refine ⟨habreast.isDone, habreast.value?_eq rfl, fun hdone hvalue => ?_⟩
  rcases habreast.alike_or_stuck hdone with halike | ⟨hstuck, -⟩
  · exact halike.relocated
  · rw [value?, hstuck] at hvalue
    cases hvalue

/-- The units of a source with a function, behind no other unit and behind one. -/
theorem invoke_relocatable_callee :
    let m := (startGroup {} {} [] calleeUnits .topLevel [] .main).run 6
    let m' := (startGroup {} {} [{}] calleeUnits .topLevel [] .main).run 6
    m.value? = some (.ok .nil) ∧ m.host.functions.entries = [("f", 1)]
      ∧ m'.host.functions.entries = [("f", 2)] ∧ m.Relocated [] [{}] m' := by
  intro m m'
  have hchildren : ∀ k u, calleeUnits[k]? = some u →
      ∀ offset ∈ u.children, k + offset.toNat < calleeUnits.length := by
    intro k u hu offset ho
    rcases k with _ | _ | k
    · cases hu
      obtain rfl := List.mem_singleton.1 ho
      decide
    · cases hu
      cases ho
    · cases hu
  have hdone : m.isDone = true := by decide
  have hvalue : m.value? = some (.ok .nil) := by decide
  exact ⟨hvalue, by decide, by decide,
    (invoke_relocatable (by decide) hchildren {} {} [] [{}] .topLevel [] .main 6).2.2 hdone
      (by rw [show Machine.value? _ = _ from hvalue]; rfl)⟩

end ModuleHost
