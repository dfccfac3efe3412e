import ModuleHost.Proofs.Assembly.Groups
import ModuleHost.Proofs.Machine.Definitions
import ModuleHost.Proofs.Session.Growth
import ModuleHost.Proofs.Session.Safety

/-!
# What a name denotes

The history of a host begins with complete groups of units and without functions, and goes on with
all that the host is asked to do.  A name then denotes the unit to which it was bound latest, and
the unit is what it was at that time, whatever has been loaded since, and however these loads have
ended (`functions_denote_latest`).
-/

namespace ModuleHost

open Machine

/-- A complete group of units: what a source was assembled into, or what was read from any stream of
bytes, and perhaps was placed in a table before. -/
inductive CompleteGroup : List CodeUnit → Prop
  | assembled {source filename : String} {us : List CodeUnit}
      (h : Assembly.assemble source filename = .ok us) : CompleteGroup us
  | read {bytes : List UInt8} {us : List CodeUnit} (h : Bytecode.read bytes = .ok us) :
      CompleteGroup us
  | placed {us : List CodeUnit} (h : CompleteGroup us) (attribution : String) :
      CompleteGroup (CodeUnit.placed attribution us)

/-- The children of a complete group lie in it. -/
theorem CompleteGroup.children {us : List CodeUnit} (h : CompleteGroup us) :
    ∀ k u, us[k]? = some u → ∀ offset ∈ u.children, k + offset.toNat < us.length := by
  induction h with
  | assembled h =>
    intro k u hu offset hoffset
    exact (((exists_holds_of_assemble h).2 k u hu).1 offset hoffset).2
  | read h =>
    intro k u hu offset hoffset
    exact ((Bytecode.read_accepted h).2 k u hu offset hoffset).2
  | placed _ attribution ih => exact CodeUnit.children_placed attribution ih

theorem Host.Encloses.appendGroups {n : Nat} {h : Host} {stack : List Activation}
    (he : h.Encloses n stack) {groups : List (List CodeUnit)}
    (hgroups : ∀ g ∈ groups, CompleteGroup g) :
    (h.appendUnits groups.flatten).Encloses n stack := by
  induction groups generalizing h with
  | nil => exact he.of_tables (List.append_nil _) rfl
  | cons g groups ih =>
    have hfirst := he.appendUnits (hgroups g List.mem_cons_self).children
    refine (ih hfirst fun g' hg' => hgroups g' (List.mem_cons_of_mem g hg')).of_tables ?_ rfl
    exact (List.append_assoc _ _ _).symm

/-- A host without units and functions. -/
theorem Host.encloses_empty (h : Host) :
    Host.Encloses 0 { h with units := [], functions := {} } [] where
  le := Nat.le_refl 0
  functions name i hi := by cases hi
  children i u _ hu := by cases hu
  frames f dest hf := absurd hf List.not_mem_nil
  settled c := List.not_mem_nil

/-- A table of complete groups, before any name is bound. -/
theorem Host.encloses_of_groups {h : Host} {groups : List (List CodeUnit)}
    (hunits : h.units = groups.flatten) (hgroups : ∀ g ∈ groups, CompleteGroup g)
    (hfunctions : h.functions = {}) : h.Encloses 0 [] :=
  (h.encloses_empty.appendGroups hgroups).of_tables hunits hfunctions

/-! ### Histories -/

inductive Asked (h : Host) (w : World) : Machine → Prop
  | request (r : Request) : Asked h w (r.start h w)
  | builtin (b : Builtin) (args : List Value) : Asked h w ((idle h w).callBuiltin b args)
  | bytecodeFile (path attribution : String) :
      Asked h w ((idle h w).loadBytecode ((idle h w).newLoad none) path attribution)
  | sourceFile (path : String) : Asked h w ((idle h w).loadSource ((idle h w).newLoad none) path)

/-- The machine can be reached in a host that has begun with complete groups of units and without
functions; the log has the bindings on the way, the latest first.  Between two requests whoever owns
the host may put further complete groups behind the units, and change everything else but the
functions. -/
inductive History : Machine → List Binding → Prop
  | begin {h : Host} {groups : List (List CodeUnit)} (w : World) (hunits : h.units = groups.flatten)
      (hgroups : ∀ g ∈ groups, CompleteGroup g) (hfunctions : h.functions = {}) :
      History (idle h w) []
  | step {m : Machine} {log : List Binding} (hm : History m log) (hnone : ∀ b, ¬ m.Binds b) :
      History m.step log
  | define {m : Machine} {log : List Binding} {b : Binding} (hm : History m log) (hb : m.Binds b) :
      History m.step (b :: log)
  | ask {m m' : Machine} {log : List Binding} {h : Host} {w : World}
      {groups : List (List CodeUnit)} (hm : History m log) (hdone : m.isDone = true)
      (hstack : m.stack = []) (hunits : h.units = m.host.units ++ groups.flatten)
      (hgroups : ∀ g ∈ groups, CompleteGroup g) (hfunctions : h.functions = m.host.functions)
      (ha : Asked h w m') : History m' log

theorem Asked.enlarged {h : Host} {w : World} {m : Machine} (ha : Asked h w m) :
    h.Enlarged m.loader := by
  cases ha with
  | request r => exact r.enlarged h w
  | builtin b args => exact callBuiltin_enlarged (idle h w) b args trivial
  | bytecodeFile path attribution =>
    exact (loadBytecode_cases (idle h w) _ path attribution).enlarged trivial
  | sourceFile path => exact (loadSource_cases (idle h w) _ path).enlarged trivial

/-- All units that can be run are there, but perhaps the one that has just been invoked. -/
inductive Machine.Settled : Machine → Prop
  | enclosed {m : Machine} (he : m.Enclosed 0) : Settled m
  | invoked {m : Machine} {f : Frame} (he : m.host.Encloses 0 []) (hstack : m.stack = [])
      (hf : m.control = .running f) (hnone : m.host.units[f.unit]? = none) : Settled m

namespace Machine

variable {m : Machine} {b : Binding}

theorem Settled.step (hs : m.Settled) : m.step.Settled := by
  cases hs with
  | enclosed he => exact .enclosed he.step
  | @invoked f he hstack hf hnone =>
    rw [step_of_running hf, fetch, hnone]
    refine .enclosed (.plain ?_ fun f' hf' => ?_)
    · show m.host.leaveFrame.Encloses 0 m.stack
      rw [hstack]
      exact he.of_tables rfl rfl
    · cases hf'

theorem Settled.secluded (hs : m.Settled) : m.Secluded := by
  cases hs with
  | enclosed he => exact he.secluded
  | invoked he hstack hf hnone =>
    rw [Secluded, hstack]
    trivial

/-- When nothing waits, all units are there. -/
theorem Settled.encloses (hs : m.Settled) (hstack : m.stack = []) : m.host.Encloses 0 [] := by
  cases hs with
  | invoked he => exact he
  | enclosed he =>
    have ho : Outermost m.stack := by
      rw [hstack]
      trivial
    have henclosed := (he.encloses ho).1
    rwa [hstack] at henclosed

/-- A frame that binds a name has its unit. -/
theorem Settled.enclosed_of_binds (hs : m.Settled) (hb : m.Binds b) : m.Enclosed 0 := by
  cases hs with
  | enclosed he => exact he
  | invoked he hstack hf hnone =>
    obtain ⟨-, f', hf', hd, -⟩ := hb
    obtain ⟨u, hu, -⟩ := child_of_definition? hd
    cases hf.symm.trans hf'
    cases hnone.symm.trans hu

end Machine

theorem Asked.settled {h : Host} {w : World} {m : Machine} (he : h.Encloses 0 [])
    (ha : Asked h w m) : m.Settled := by
  have hidle : (idle h w).host.Encloses 0 (idle h w).stack := he
  cases ha with
  | builtin b args => exact .enclosed (enclosed_callBuiltin hidle b args)
  | bytecodeFile path attribution =>
    exact .enclosed ((loadBytecode_cases (idle h w) _ path attribution).enclosed hidle)
  | sourceFile path => exact .enclosed ((loadSource_cases (idle h w) _ path).enclosed hidle)
  | request r =>
    cases r with
    | require name => exact .enclosed (enclosed_callBuiltin hidle .require [.str name])
    | load name => exact .enclosed (enclosed_callBuiltin hidle .load [.str name])
    | invoke unit scope args receiver =>
      by_cases hunit : unit < h.units.length
      · exact .enclosed (enclosed_enter hidle ⟨Nat.zero_le _, hunit⟩ scope args receiver)
      · show ((idle h w).enter unit scope args receiver).Settled
        unfold enter
        split
        · exact .enclosed (.plain he nofun)
        · exact .invoked (he.of_tables rfl rfl) rfl rfl
            (List.getElem?_eq_none (Nat.not_lt.1 hunit))

/-- At every moment of a history the functions are those of the latest bindings. -/
theorem History.records {m : Machine} {log : List Binding} (hm : History m log) :
    m.Settled ∧ m.loader.Records log := by
  induction hm with
  | @begin h groups w hunits hgroups hfunctions =>
    have hhost : h.Encloses 0 [] := Host.encloses_of_groups hunits hgroups hfunctions
    exact ⟨.enclosed (.plain hhost nofun), .nil hfunctions⟩
  | step _ hnone ih =>
    obtain ⟨hsettled, hrecords⟩ := ih
    exact ⟨hsettled.step, hrecords.enlarged (enlarged_step hsettled.secluded hnone)⟩
  | define _ hb ih =>
    obtain ⟨hsettled, hrecords⟩ := ih
    exact ⟨hsettled.step, hb.records (hsettled.enclosed_of_binds hb) hrecords⟩
  | @ask m m' log h w groups _ _ hstack hunits hgroups hfunctions ha ih =>
    -- whoever owns the host puts units behind the others and binds no name
    obtain ⟨hsettled, hrecords⟩ := ih
    have hloader : m.loader = m.host := by
      rw [loader, hstack]
      rfl
    have hhost : h.Encloses 0 [] :=
      ((hsettled.encloses hstack).appendGroups hgroups).of_tables hunits hfunctions
    have hprefix : m.loader.units <+: h.units := by
      rw [hloader, hunits]
      exact List.prefix_append _ _
    have hkept : h.Records log := hrecords.keep hprefix (by rw [hloader, hfunctions])
    exact ⟨ha.settled hhost, hkept.enlarged ha.enlarged⟩

/-- However far a machine of a history runs, it stays in the history. -/
theorem History.run {m : Machine} {log : List Binding} (hm : History m log) (n : Nat) :
    ∃ new, History (m.run n) (new ++ log) := by
  induction n with
  | zero => exact ⟨[], hm⟩
  | succ n ih =>
    obtain ⟨new, hrun⟩ := ih
    rw [run_succ']
    by_cases hb : ∃ b, (m.run n).Binds b
    · obtain ⟨b, hb⟩ := hb
      exact ⟨b :: new, hrun.define hb⟩
    · exact ⟨new, hrun.step (not_exists.1 hb)⟩

/-- What is being compiled runs in a host of its own, which has a history of its own. -/
theorem compileAndLoad_history {m : Machine} {path source : String} {us : List CodeUnit}
    (hc : m.host.compiler = .always) (ha : Assembly.assemble source path = .ok us) (l : Load) :
    ∃ x : Machine, m.compileAndLoad l path source
        = x.above (.compilation { load := l, path, outer := m.host } :: m.stack)
      ∧ ∀ k, ∃ log, History (x.run k) log := by
  let start := idle (m.host.isolated.appendUnits us) m.world
  refine ⟨start.enterTopLevel 0, ?_, fun k => ?_⟩
  · unfold compileAndLoad
    rw [ha]
    dsimp only
    rw [if_pos (by rw [hc]; rfl)]
    rfl
  · have hgroups : ∀ g ∈ [us], CompleteGroup g := by
      intro g hg
      rw [List.mem_singleton.1 hg]
      exact .assembled ha
    have hunits : start.host.units = [us].flatten := (List.append_nil us).symm
    have hsame : start.host.units = start.host.units ++ ([] : List (List CodeUnit)).flatten :=
      (List.append_nil _).symm
    have hbegin : History start [] := .begin m.world hunits hgroups rfl
    have hasked : Asked start.host m.world (start.enterTopLevel 0) :=
      .request (.invoke 0 .topLevel [] .main)
    have hentered : History (start.enterTopLevel 0) [] :=
      .ask hbegin rfl rfl hsame nofun rfl hasked
    obtain ⟨log, hlog⟩ := hentered.run k
    exact ⟨_, hlog⟩

/-- Every function is a unit of the table, namely the one to which the name was bound latest, and
this unit is still what it was then.  A call of the name runs it; and no frame that was called or
entered by a load lacks its unit.  (While a source is compiled the host is the one that waits for
it; `compileAndLoad_history` is about the other one.) -/
theorem functions_denote_latest {m : Machine} {log : List Binding} (hm : History m log) :
    (∀ name i, m.loader.functions.get? name = some i →
        ∃ b u, latest log name = some b ∧ b.unit = i ∧ b.body = some u
          ∧ m.loader.units[i]? = some u)
      ∧ (∀ name b, latest log name = some b → m.loader.functions.get? name = some b.unit)
      ∧ ∀ f, m.control = .running f → Outermost m.stack →
          (m.stack ≠ [] → ∃ u, m.host.units[f.unit]? = some u)
            ∧ ∀ dest name unit args, m.functionCall? f = some (dest, name, unit, args) →
                ∃ b u, latest log name = some b ∧ b.body = some u
                  ∧ m.host.units[b.unit]? = some u
                  ∧ m.step
                    = (m.push (.call f dest)).enter b.unit (.function name) args f.receiver := by
  obtain ⟨hsettled, hrecords⟩ := hm.records
  have hdenotes : ∀ name i, m.loader.functions.get? name = some i →
      ∃ b u, latest log name = some b ∧ b.unit = i ∧ b.body = some u
        ∧ m.loader.units[i]? = some u := by
    intro name i hi
    rw [hrecords.functions, Option.map_eq_some_iff] at hi
    obtain ⟨b, hb, rfl⟩ := hi
    obtain ⟨u, hbody, hu⟩ := hrecords.bodies name b hb
    exact ⟨b, u, hb, rfl, hbody, hu⟩
  refine ⟨hdenotes, fun name b hb => ?_, fun f hf ho => ⟨fun hstack => ?_, ?_⟩⟩
  · rw [hrecords.functions, hb]
    rfl
  · cases hsettled with
    | invoked _ hnil => exact absurd hnil hstack
    | enclosed he =>
      have hlt := ((he.encloses ho).2 f hf).2
      exact ⟨_, List.getElem?_eq_getElem hlt⟩
  · intro dest name unit args hcall
    obtain ⟨hget, hfetch⟩ := fetch_of_functionCall? hcall
    have hloader : m.loader = m.host := loaderOf_of_outermost _ ho
    rw [hloader] at hdenotes
    obtain ⟨b, u, hb, rfl, hbody, hu⟩ := hdenotes name unit hget
    exact ⟨b, u, hb, hbody, hu, (step_of_running hf).trans hfetch⟩

/-- The top level has bound the function and is about to call it. -/
theorem functions_denote_latest_callee :
    ∃ (b : Binding) (f : Frame) (u : CodeUnit), History (calleeStart.run 1) [b]
      ∧ (calleeStart.run 1).control = .running f ∧ calleeUnits[1]? = some u ∧ b.body = some u
      ∧ (calleeStart.run 1).step
        = ((calleeStart.run 1).push (.call f 0)).enter 1 (.function "f") [.nil] .main := by
  have hgroups : ∀ g ∈ [calleeUnits], CompleteGroup g := by
    intro g hg
    rw [List.mem_singleton.1 hg]
    exact .assembled assemble_callee
  let h : Host := { units := calleeUnits }
  have hunits : h.units = [calleeUnits].flatten := (List.append_nil _).symm
  have hsame : h.units = h.units ++ ([] : List (List CodeUnit)).flatten :=
    (List.append_nil _).symm
  have hbegin : History (idle h {}) [] := .begin {} hunits hgroups rfl
  have hasked : Asked h {} calleeStart := .request (.invoke 0 .topLevel [] .main)
  have hstart : History calleeStart [] := .ask hbegin rfl rfl hsame nofun rfl hasked
  let b : Binding := { name := "f", unit := 1, body := calleeUnits[1]? }
  let f : Frame := (Frame.start 0 .topLevel [] .main).advance
  have hbinds : calleeStart.Binds b :=
    ⟨trivial, Frame.start 0 .topLevel [] .main, by decide +kernel, by decide +kernel, rfl⟩
  have hdefined : History (calleeStart.run 1) [b] := hstart.define hbinds
  have hrunning : (calleeStart.run 1).control = .running f := by decide +kernel
  have hcall : (calleeStart.run 1).functionCall? f = some (0, "f", 1, [.nil]) := by
    decide +kernel
  obtain ⟨-, -, hframes⟩ := functions_denote_latest hdefined
  obtain ⟨b', u, hlatest, hbody, -, hstep⟩ :=
    (hframes f hrunning trivial).2 0 "f" 1 [.nil] hcall
  have hb' : b = b' := by
    rw [latest_cons, if_pos rfl] at hlatest
    exact Option.some_inj.1 hlatest
  subst hb'
  exact ⟨b, f, u, hdefined, hrunning, hbody, hbody, hstep⟩

end ModuleHost
