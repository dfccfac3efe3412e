import ModuleHost.Proofs.Machine.Arena
import ModuleHost.Proofs.Session.Refinement

/-!
# What a load gives back

However a `load` or a `require` ends, well or with a failure, with an exception from any depth, by a
halt or because the frames have become too many, it gives back what it has taken on its way.  The
arena is the list that it was (`arena_restored`).  No entry of the file tree is touched at any
moment, and the temporary files, which are all that is made, are gone at the end (`files_restored`).
-/

namespace ModuleHost

open Machine

variable {h : Host} {w : World} {name : String} {n : Nat} {m : Machine}

/-! ### The arena -/

theorem load_arena_eq (hend : (((idle h w).load name).run n).stack = []) :
    (((idle h w).load name).run n).host.arena = h.arena := by
  unfold Machine.load at hend ⊢
  cases hr : (idle h w).world.resolve (idle h w).host.searchPath name with
  | error e =>
    dsimp only
    rw [run_of_isDone rfl]
    rfl
  | ok path =>
    rw [hr] at hend
    dsimp only at hend ⊢
    exact (dispatch_cases _ _ path).arena_eq rfl rfl hend

theorem require_arena_eq (hend : (((idle h w).require name).run n).stack = []) :
    (((idle h w).require name).run n).host.arena = h.arena := by
  have hcases := require_cases (idle h w) name
  generalize (idle h w).require name = d at hcases hend ⊢
  cases hcases with
  | unresolved | known =>
    rw [run_of_isDone rfl]
    rfl
  | @begun m₁ _ path hr hf hm hd =>
    subst hm
    exact hd.arena_eq rfl rfl hend

/-- When a `load` or a `require` has come to its end, whatever the end is, the arena is what it was
before. -/
theorem arena_restored (h : Host) (w : World) (name : String) (n : Nat)
    (hm : m = ((idle h w).load name).run n ∨ m = ((idle h w).require name).run n)
    (hend : m.stack = []) : m.host.arena = h.arena := by
  rcases hm with rfl | rfl
  · exact load_arena_eq hend
  · exact require_arena_eq hend

def raisingModule : List UInt8 :=
  (Bytecode.Field.ofUnits [{
    instructions := [{ opcode := .loadStr, dest := 1 }, { opcode := .raise, src1 := 1 }]
    symbols := ["kaboom"] }]).flatMap Bytecode.Field.bytes

/-- The string is in the arena when it is raised, and not at the end. -/
theorem arena_restored_raising :
    ∃ m : Machine, (m.run 1).host.arena = [.int 7, .str "kaboom"]
      ∧ (m.run 3).control = .failing (.raised {
          className := "RuntimeError", message := "kaboom", backtrace := ["/a.nlb:0:in <main>"] })
      ∧ (m.run 3).host.arena = [.int 7] := by
  have hname : Path.IsName "a.nlb" := ⟨by decide, by decide, by decide, by decide, by decide⟩
  have hopen := FileTree.openEntry_single hname raisingModule []
  let m := idle { arena := [.int 7] } { files := .single "a.nlb" raisingModule }
  have hrequire : m.require "/a.nlb" = _ :=
    require_bytecode (by decide) hopen (by decide) (by decide)
  have hrun : ((m.require "/a.nlb").run 1).host.arena = [.int 7, .str "kaboom"]
      ∧ ((m.require "/a.nlb").run 3).stack = []
      ∧ ((m.require "/a.nlb").run 3).control = .failing (.raised {
          className := "RuntimeError", message := "kaboom"
          backtrace := ["/a.nlb:0:in <main>"] }) := by
    rw [hrequire]
    decide
  obtain ⟨hfirst, hend, hcontrol⟩ := hrun
  exact ⟨m.require "/a.nlb", hfirst, hcontrol,
    arena_restored { arena := [.int 7] } _ "/a.nlb" 3 (Or.inr rfl) hend⟩

/-! ### The files -/

/-- However far a `load` or a `require` has come, every entry of the file tree from before it is
what it was, and what has been added are the temporary files of the loads in progress, each where
nothing was; when it has come to its end, whatever the end is, the file tree is what it was before.
-/
theorem files_restored (h : Host) (w : World) (name : String) (n : Nat)
    (hm : m = ((idle h w).load name).run n ∨ m = ((idle h w).require name).run n) :
    (∀ l e, w.files.entryAt? l = some e → m.world.files.entryAt? l = some e)
      ∧ (∀ l, m.world.files.entryAt? l ≠ w.files.entryAt? l →
          w.files.entryAt? l = none ∧ ∃ a ∈ artifacts m.stack, a.location = l)
      ∧ (m.stack = [] → m.world.files = w.files) := by
  have hcarries : m.Carries h.config w := by
    rcases hm with rfl | rfl
    · exact ((carries_idle h w).load name).run n
    · exact ((carries_idle h w).require name).run n
  have hfiles := hcarries.world.files
  have hkeeps := hfiles.keeps
  refine ⟨hkeeps, fun l hl => ?_, hcarries.files_eq⟩
  have hmade : l ∈ (artifacts m.stack).map (·.location) := by
    by_contra hnot
    exact hl (hfiles.entryAt?_of_notMem hnot)
  refine ⟨?_, List.mem_map.1 hmade⟩
  cases he : w.files.entryAt? l with
  | none => rfl
  | some e => exact absurd ((hkeeps l e he).trans he.symm) hl

/-- A module in a source goes through a temporary file, which is there while the module runs. -/
theorem files_restored_callee :
    ∃ m : Machine, (m.run 3).world.files.entryAt? Callee.artifact.location ≠ none
      ∧ (m.run 7).loaded? = some (.ok true) ∧ (m.run 7).world.files = Callee.world.files := by
  have hname : Path.IsName "callee.nl" := by constructor <;> decide
  have hopen := FileTree.openEntry_single hname (Bytes.ofText calleeSource) []
  let m := (idle Callee.host Callee.world).load "/callee.nl"
  have hload : m = startSource Callee.host Callee.world "/callee.nl" := by
    have hresolve : (idle Callee.host Callee.world).world.resolve _ "/callee.nl" = .ok _ :=
      World.resolve_of_openEntry (by decide) hopen Callee.host.searchPath
    have hkind : ModuleKind.ofPath "/callee.nl" = .ok .source := by decide
    rw [show m = _ from load_of_resolve hresolve, dispatch, hkind]
    rfl
  have hrun : (m.run 3).world.files.entryAt? Callee.artifact.location ≠ none
      ∧ (m.run 7).loaded? = some (.ok true) ∧ (m.run 7).stack = [] := by
    rw [hload, Callee.startSource_eq]
    decide
  obtain ⟨hmade, hloaded, hend⟩ := hrun
  exact ⟨m, hmade, hloaded,
    (files_restored Callee.host Callee.world "/callee.nl" 7 (Or.inl rfl)).2.2 hend⟩

end ModuleHost
