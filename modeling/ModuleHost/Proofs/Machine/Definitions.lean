import ModuleHost.Proofs.Machine.Enclosed
import ModuleHost.Proofs.Machine.Ordinary
import ModuleHost.Proofs.Machine.Unwinding

/-!
# What names are bound to

A definition that is executed binds a name to a unit of the table (`Machine.Binds`).  Nothing else
binds names (`enlarged_step`), and no unit is ever changed, so the functions of a host are those
that its latest bindings made, with the bodies that they had then (`Host.Records`).
-/

namespace ModuleHost

structure Binding where
  name : String
  unit : Nat
  /-- What stood in the table of units then. -/
  body : Option CodeUnit

/-- The latest binding of a name in a list that begins with the latest binding of all. -/
def latest (log : List Binding) (name : String) : Option Binding := log.find? (·.name = name)

theorem latest_cons (b : Binding) (log : List Binding) (name : String) :
    latest (b :: log) name = if name = b.name then some b else latest log name := by
  by_cases h : name = b.name
  · simp [latest, h]
  · simp [latest, h, Ne.symm h]

/-- The functions of the host are those that the latest bindings made, and their bodies are the
same. -/
structure Host.Records (h : Host) (log : List Binding) : Prop where
  functions : ∀ name, h.functions.get? name = (latest log name).map (·.unit)
  bodies : ∀ name b, latest log name = some b → ∃ u, b.body = some u ∧ h.units[b.unit]? = some u

namespace Host.Records

variable {h h' : Host} {log : List Binding}

theorem nil (hf : h.functions = {}) : h.Records [] where
  functions name := by
    rw [hf]
    rfl
  bodies := nofun

/-- Units may be put behind the others. -/
theorem keep (hr : h.Records log) (hunits : h.units <+: h'.units)
    (hfunctions : h'.functions = h.functions) : h'.Records log where
  functions name := hfunctions ▸ hr.functions name
  bodies name b hb := by
    obtain ⟨u, hbody, hu⟩ := hr.bodies name b hb
    exact ⟨u, hbody, CodeUnit.getElem?_of_isPrefix hunits hu⟩

theorem enlarged (hr : h.Records log) (he : h.Enlarged h') : h'.Records log :=
  hr.keep he.units he.same

/-- One more name is bound. -/
theorem define (hr : h.Records log) {b : Binding} {u : CodeUnit} (hbody : b.body = some u)
    (hu : h.units[b.unit]? = some u) : (h.defineFunction b.name b.unit).Records (b :: log) where
  functions name := by
    rw [latest_cons]
    refine (h.functions.get?_set b.name name b.unit).trans ?_
    split
    · rfl
    · exact hr.functions name
  bodies name b' hb' := by
    rw [latest_cons] at hb'
    split at hb'
    · cases hb'
      exact ⟨u, hbody, hu⟩
    · exact hr.bodies name b' hb'

end Host.Records

namespace Machine

variable {m m' : Machine} {f : Frame} {b : Binding} {n : Nat}

/-- The next step makes this binding in the host that loads. -/
def Binds (m : Machine) (b : Binding) : Prop :=
  Outermost m.stack ∧ ∃ f, m.control = .running f ∧ m.definition? f = some (b.name, b.unit)
    ∧ b.body = m.host.units[b.unit]?

theorem Executed.loader (he : Executed m f m') : m'.loader = loaderOf m'.host m.stack := by
  cases he with
  | calls dest args _ =>
    rw [Machine.loader, stack_enter]
    rfl
  | goesOn | returns | halts | raises | lost | stuck => rfl

/-- A step that calls no builtin and makes no binding. -/
theorem fetch_enlarged_of_not_binds (hb : m.builtinCall? f = none) (hs : m.Secluded)
    (hc : m.control = .running f) (hnone : ∀ b, ¬ m.Binds b) :
    m.loader.Enlarged (m.fetch f).loader := by
  have he := fetch_executed hb
  rcases SecludedIn.cases hs with ho | ⟨-, hsame⟩
  · cases hcall : m.functionCall? f with
    | some call =>
      obtain ⟨dest, name, unit, args⟩ := call
      rw [(fetch_of_functionCall? hcall).2]
      exact loader_enter (m.push (.call f dest)) unit _ args _
    | none =>
      cases hd : m.definition? f with
      | some definition =>
        obtain ⟨name, unit⟩ := definition
        exact absurd ⟨ho, f, hc, hd, rfl⟩ (hnone { name, unit, body := m.host.units[unit]? })
      | none =>
        refine ⟨he.growsTo, ?_⟩
        rw [he.loader, Machine.loader, loaderOf_of_outermost _ ho, loaderOf_of_outermost _ ho]
        exact (ordinary_fetch hb hcall hd).functions
  · -- what is being compiled does not touch the host that waits
    rw [he.loader, hsame]
    exact .refl _

/-- Nothing but a definition binds a name. -/
theorem enlarged_step (hs : m.Secluded) (hnone : ∀ b, ¬ m.Binds b) :
    m.loader.Enlarged m.step.loader := by
  by_cases hc : ∃ f, m.control = .running f
  · obtain ⟨f, hf⟩ := hc
    rw [step_of_running hf]
    cases hb : m.builtinCall? f with
    | some call => exact fetch_enlarged hb hs
    | none => exact fetch_enlarged_of_not_binds hb hs hf hnone
  · exact step_enlarged hs (not_exists.1 hc)

/-! ### Where units are there -/

theorem outermost_of_settled {stack : List Activation} (h : ∀ c, Activation.compilation c ∉ stack) :
    Outermost stack := by
  induction stack with
  | nil => trivial
  | cons a stack ih =>
    have hbelow : Outermost stack := ih fun c hc => h c (List.mem_cons_of_mem a hc)
    cases a with
    | call f dest => exact hbelow
    | load l => exact hbelow
    | compilation c => exact absurd List.mem_cons_self (h c)

theorem secludedIn_append {h : Host} {calls stack : List Activation}
    (hcalls : ∀ a ∈ calls, ∃ f dest, a = .call f dest) (hs : SecludedIn h stack) :
    SecludedIn h (calls ++ stack) := by
  induction calls with
  | nil => exact hs
  | cons a calls ih =>
    obtain ⟨f, dest, rfl⟩ := hcalls a List.mem_cons_self
    exact ih fun a' ha' => hcalls a' (List.mem_cons_of_mem _ ha')

theorem Enclosed.secluded (he : m.Enclosed n) : m.Secluded := by
  cases he with
  | plain h _ => exact secludedIn_of_outermost _ (outermost_of_settled h.settled)
  | compiling hi hh =>
    exact secludedIn_append hi.calls ⟨hi.builtins, outermost_of_settled hh.settled⟩

/-- While nothing is being compiled, the host that runs has all units that can be run. -/
theorem Enclosed.encloses (he : m.Enclosed n) (ho : Outermost m.stack) :
    m.host.Encloses n m.stack ∧ ∀ f, m.control = .running f → m.host.Has n f.unit := by
  cases he with
  | plain h hrunning => exact ⟨h, hrunning⟩
  | compiling =>
    exact absurd rfl (ho.not_compilation (List.mem_append_right _ List.mem_cons_self) _)

/-- A definition binds a name to a unit that is there. -/
theorem Binds.records (hb : m.Binds b) (he : m.Enclosed n) {log : List Binding}
    (hr : m.loader.Records log) : m.step.loader.Records (b :: log) := by
  obtain ⟨ho, f, hf, hd, hbody⟩ := hb
  obtain ⟨henclosed, hrunning⟩ := he.encloses ho
  obtain ⟨u, hu, offset, hoffset, hunit⟩ := child_of_definition? hd
  have hlt := henclosed.children f.unit u (hrunning f hf).1 hu offset hoffset
  rw [← hunit] at hlt
  have hat := List.getElem?_eq_getElem hlt
  rw [Machine.loader, loaderOf_of_outermost _ ho] at hr
  have hloader : ({ m with host := m.host.defineFunction b.name b.unit }.continueWith
      f.advance).loader = m.host.defineFunction b.name b.unit := loaderOf_of_outermost _ ho
  rw [step_of_running hf, fetch_of_definition? hd, hloader]
  exact hr.define (hbody.trans hat) hat

end Machine

end ModuleHost
