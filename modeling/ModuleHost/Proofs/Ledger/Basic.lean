import ModuleHost.Ledger
import Mathlib.Logic.Basic
import Mathlib.Tactic.ByContra

/-!
# Members of the ledger

What is in a path set after an insertion or an erasure, and what a ledger says of a path.  A ledger
is `Tidy` when no path stands in it twice, neither in one of its sets nor in both.
-/

namespace ModuleHost

namespace PathSet

theorem contains_iff (s : PathSet) (path : String) :
    s.contains path = true ↔ path ∈ s.entries := by
  rw [contains, List.contains_iff_mem]

theorem insert_of_notMem {s : PathSet} {path : String} (h : path ∉ s.entries) :
    (s.insert path).entries = s.entries ++ [path] := by
  rw [insert, if_neg (by rwa [contains_iff])]

theorem mem_insert (s : PathSet) (path other : String) :
    other ∈ (s.insert path).entries ↔ other ∈ s.entries ∨ other = path := by
  by_cases h : path ∈ s.entries
  · rw [insert, if_pos ((contains_iff s path).2 h)]
    constructor
    · exact Or.inl
    · rintro (ho | rfl)
      · exact ho
      · exact h
  · rw [insert_of_notMem h, List.mem_append, List.mem_singleton]

theorem prefix_insert (s : PathSet) (path : String) : s.entries <+: (s.insert path).entries := by
  by_cases h : path ∈ s.entries
  · have hsame : s.insert path = s := if_pos ((contains_iff s path).2 h)
    simp only [hsame, List.prefix_rfl]
  · rw [insert_of_notMem h]
    exact List.prefix_append _ _

theorem entries_erase (s : PathSet) (path : String) :
    (s.erase path).entries = s.entries.filter fun other => decide (other ≠ path) := by
  by_cases h : path ∈ s.entries
  · rw [erase, if_pos ((contains_iff s path).2 h)]
  · rw [erase, if_neg (by rwa [contains_iff]), eq_comm, List.filter_eq_self]
    intro other ho
    exact decide_eq_true fun he => h (he ▸ ho)

theorem mem_erase (s : PathSet) (path other : String) :
    other ∈ (s.erase path).entries ↔ other ∈ s.entries ∧ other ≠ path := by
  rw [entries_erase, List.mem_filter, decide_eq_true_eq]

/-- Erasing what was inserted last gives back the set before. -/
theorem erase_of_eq_append {s : PathSet} {rest : List String} {path : String}
    (hs : s.entries = rest ++ [path]) (hn : path ∉ rest) : (s.erase path).entries = rest := by
  have hrest : rest.filter (fun other => decide (other ≠ path)) = rest := by
    rw [List.filter_eq_self]
    intro other ho
    exact decide_eq_true fun he => hn (he ▸ ho)
  rw [entries_erase, hs, List.filter_append, hrest, List.filter_cons_of_neg (by simp),
    List.filter_nil, List.append_nil]

theorem erase_insert {s : PathSet} {path : String} (h : path ∉ s.entries) :
    (s.insert path).erase path = s := by
  have he := erase_of_eq_append (insert_of_notMem h) h
  obtain ⟨entries⟩ := s
  exact congrArg PathSet.mk he

end PathSet

namespace Ledger

theorem state_eq_fresh_iff (l : Ledger) (path : String) :
    l.state path = .fresh ↔ path ∉ l.loaded.entries ∧ path ∉ l.loading.entries := by
  rw [← PathSet.contains_iff, ← PathSet.contains_iff, state]
  cases l.loaded.contains path <;> cases l.loading.contains path <;> decide

theorem begin?_eq_some_iff (l l' : Ledger) (path : String) :
    l.begin? path = some l' ↔ l.state path = .fresh ∧ l' = l.markLoading path := by
  rw [begin?]
  by_cases h : l.state path = .fresh
  · rw [if_pos h, Option.some.injEq]
    constructor
    · rintro rfl
      exact ⟨h, rfl⟩
    · rintro ⟨-, rfl⟩
      rfl
  · rw [if_neg h]
    constructor
    · intro he
      cases he
    · intro he
      exact absurd he.1 h

theorem begin?_eq_none_iff (l : Ledger) (path : String) :
    l.begin? path = none ↔ path ∈ l.loaded.entries ∨ path ∈ l.loading.entries := by
  have hfresh := state_eq_fresh_iff l path
  rw [begin?]
  by_cases h : l.state path = .fresh
  · rw [if_pos h]
    obtain ⟨h₁, h₂⟩ := hfresh.1 h
    constructor
    · intro he
      cases he
    · intro he
      exact absurd he (not_or.2 ⟨h₁, h₂⟩)
  · rw [if_neg h]
    refine ⟨fun _ => ?_, fun _ => rfl⟩
    by_contra hn
    exact h (hfresh.2 (not_or.1 hn))

/-- The ledger after a load of the key has ended well; a load without a key changes nothing. -/
def completed (l : Ledger) (key? : Option String) : Ledger :=
  match key? with
  | some key => l.markLoaded key
  | none => l

def abandoned (l : Ledger) (retry : Bool) (key? : Option String) : Ledger :=
  match key? with
  | some key => if retry then l.markFailed key else l
  | none => l

/-- No path stands in the ledger twice. -/
def Tidy (l : Ledger) : Prop := (l.loaded.entries ++ l.loading.entries).Nodup

theorem tidy_iff (l : Ledger) :
    l.Tidy ↔ l.loaded.entries.Nodup ∧ l.loading.entries.Nodup
      ∧ ∀ path, ¬ (path ∈ l.loaded.entries ∧ path ∈ l.loading.entries) := by
  rw [Tidy, List.nodup_append]
  constructor
  · rintro ⟨h₁, h₂, h₃⟩
    exact ⟨h₁, h₂, fun path hp => h₃ path hp.1 path hp.2 rfl⟩
  · rintro ⟨h₁, h₂, h₃⟩
    refine ⟨h₁, h₂, ?_⟩
    rintro path hp _ hq rfl
    exact h₃ path ⟨hp, hq⟩

theorem tidy_markFailed {l : Ledger} (h : l.Tidy) (path : String) : (l.markFailed path).Tidy := by
  have hsub : (l.loading.erase path).entries.Sublist l.loading.entries := by
    rw [PathSet.entries_erase]
    exact List.filter_sublist
  exact h.sublist (hsub.append_left _)

end Ledger

end ModuleHost
