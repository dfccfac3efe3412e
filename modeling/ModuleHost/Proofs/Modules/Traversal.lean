import ModuleHost.Assembly.Operand
import Mathlib.Data.List.Nodup
import Mathlib.Logic.Relation

/-!
# Depth-first order

Modules that require each other form a graph.  A depth-first traversal starts a module, goes through
what it requires in the order in which it is listed, and finishes the module; a module that has been
started is skipped, so cycles do no harm.  `visit` is that traversal, with a bound on how deep it
may nest.

Main statement: `visit_order`, that the finished modules are those that can be reached, each once.
-/

namespace ModuleHost

/-- Modules and what each of them requires, in order. -/
structure ModuleGraph where
  names : List String
  requires : String → List String
  nodup : names.Nodup
  named : ∀ m ∈ names, Assembly.isName m.toList = true
  closed : ∀ m ∈ names, ∀ d ∈ requires m, d ∈ names

structure Traversal where
  /-- The modules that have been started, the first one first. -/
  started : List String := []
  /-- The modules that have been finished, the first one first. -/
  finished : List String := []
deriving DecidableEq, Repr

namespace Traversal

def start (t : Traversal) (m : String) : Traversal := { t with started := t.started ++ [m] }

def finish (t : Traversal) (m : String) : Traversal := { t with finished := t.finished ++ [m] }

end Traversal

namespace ModuleGraph

variable {g : ModuleGraph} {t t' t'' : Traversal} {m : String}
  {roots new new' post post' : List String}

/-- Visits a module; `none` if more than `depth` modules would be open at once. -/
def visit (g : ModuleGraph) : (depth : Nat) → Traversal → String → Option Traversal
  | 0, t, m => if m ∈ t.started then some t else none
  | depth + 1, t, m =>
    if m ∈ t.started then some t
    else ((g.requires m).foldlM (g.visit depth) (t.start m)).map (·.finish m)

def visitAll (g : ModuleGraph) (depth : Nat) (t : Traversal) (ms : List String) :
    Option Traversal :=
  ms.foldlM (g.visit depth) t

/-- The module `b` is required by `a`, directly or through others, or it is `a`. -/
def Reaches (g : ModuleGraph) : String → String → Prop :=
  Relation.ReflTransGen fun a b => b ∈ g.requires a

theorem visit_of_started (depth : Nat) (h : m ∈ t.started) : g.visit depth t m = some t := by
  cases depth <;> exact if_pos h

theorem visit_zero_of_notMem (h : m ∉ t.started) : g.visit 0 t m = none := if_neg h

theorem visit_succ_of_notMem (depth : Nat) (h : m ∉ t.started) :
    g.visit (depth + 1) t m
      = (g.visitAll depth (t.start m) (g.requires m)).map (·.finish m) := if_neg h

theorem visitAll_cons_eq_some_iff (depth : Nat) (ms : List String) :
    g.visitAll depth t (m :: ms) = some t''
      ↔ ∃ t', g.visit depth t m = some t' ∧ g.visitAll depth t' ms = some t'' := by
  rw [visitAll, List.foldlM_cons]
  exact Option.bind_eq_some_iff

/-- From `t` to `t'` the modules `new` have been started and the modules `post` finished, which are
the same ones, and all that the roots and the new ones require has been started. -/
structure Grown (g : ModuleGraph) (roots : List String) (t : Traversal) (new post : List String)
    (t' : Traversal) : Prop where
  started : t'.started = t.started ++ new
  finished : t'.finished = t.finished ++ post
  perm : post.Perm new
  nodup : new.Nodup
  fresh : ∀ x ∈ new, x ∉ t.started
  visited : ∀ r ∈ roots, r ∈ t'.started
  closed : ∀ x ∈ new, ∀ d ∈ g.requires x, d ∈ t'.started
  reached : ∀ x ∈ new, ∃ r ∈ roots, g.Reaches r x

theorem Grown.refl (h : ∀ r ∈ roots, r ∈ t.started) : Grown g roots t [] [] t where
  started := (List.append_nil _).symm
  finished := (List.append_nil _).symm
  perm := List.Perm.refl _
  nodup := List.nodup_nil
  fresh _ hx := absurd hx List.not_mem_nil
  visited := h
  closed _ hx := absurd hx List.not_mem_nil
  reached _ hx := absurd hx List.not_mem_nil

/-- A module that has been started is skipped. -/
theorem Grown.skip (hm : m ∈ t.started) : Grown g [m] t [] [] t := by
  apply Grown.refl
  intro r hr
  rwa [List.mem_singleton.1 hr]

theorem Grown.mono (h : Grown g roots t new post t') {x : String} (hx : x ∈ t.started) :
    x ∈ t'.started := by
  rw [h.started]
  exact List.mem_append_left _ hx

/-- One module after the other. -/
theorem Grown.append (h : Grown g [m] t new post t') (h' : Grown g roots t' new' post' t'') :
    Grown g (m :: roots) t (new ++ new') (post ++ post') t'' where
  started := by rw [h'.started, h.started, List.append_assoc]
  finished := by rw [h'.finished, h.finished, List.append_assoc]
  perm := h.perm.append h'.perm
  nodup := by
    refine List.Nodup.append h.nodup h'.nodup ?_
    intro x hx hx'
    apply h'.fresh x hx'
    rw [h.started]
    exact List.mem_append_right _ hx
  fresh := by
    intro x hx
    rcases List.mem_append.1 hx with hx | hx
    · exact h.fresh x hx
    · exact fun hs => h'.fresh x hx (h.mono hs)
  visited := by
    intro r hr
    rcases List.mem_cons.1 hr with rfl | hr
    · exact h'.mono (h.visited r (List.mem_singleton_self r))
    · exact h'.visited r hr
  closed := by
    intro x hx d hd
    rcases List.mem_append.1 hx with hx | hx
    · exact h'.mono (h.closed x hx d hd)
    · exact h'.closed x hx d hd
  reached := by
    intro x hx
    rcases List.mem_append.1 hx with hx | hx
    · obtain ⟨r, hr, hreach⟩ := h.reached x hx
      exact ⟨r, List.mem_cons.2 (Or.inl (List.mem_singleton.1 hr)), hreach⟩
    · obtain ⟨r, hr, hreach⟩ := h'.reached x hx
      exact ⟨r, List.mem_cons_of_mem _ hr, hreach⟩

/-- A module with all that it requires. -/
theorem Grown.node (hm : m ∉ t.started)
    (h : Grown g (g.requires m) (t.start m) new post t') :
    Grown g [m] t (m :: new) (post ++ [m]) (t'.finish m) where
  started := by
    show t'.started = _
    rw [h.started, Traversal.start, List.append_assoc]
    rfl
  finished := by
    show t'.finished ++ [m] = _
    rw [h.finished, Traversal.start, List.append_assoc]
  perm := (List.perm_append_singleton m post).trans (h.perm.cons m)
  nodup := by
    refine List.nodup_cons.2 ⟨?_, h.nodup⟩
    intro hx
    exact h.fresh m hx (List.mem_append_right _ (List.mem_singleton_self m))
  fresh := by
    intro x hx
    rcases List.mem_cons.1 hx with rfl | hx
    · exact hm
    · exact fun hs => h.fresh x hx (List.mem_append_left _ hs)
  visited := by
    intro r hr
    obtain rfl := List.mem_singleton.1 hr
    exact h.mono (List.mem_append_right _ (List.mem_singleton_self r))
  closed := by
    intro x hx d hd
    rcases List.mem_cons.1 hx with rfl | hx
    · exact h.visited d hd
    · exact h.closed x hx d hd
  reached := by
    intro x hx
    refine ⟨m, List.mem_singleton_self m, ?_⟩
    rcases List.mem_cons.1 hx with rfl | hx
    · exact .refl
    · obtain ⟨r, hr, hreach⟩ := h.reached x hx
      exact .head hr hreach

theorem visitAll_grown {depth : Nat}
    (hvisit : ∀ {t t' m}, g.visit depth t m = some t' → ∃ new post, Grown g [m] t new post t') :
    g.visitAll depth t roots = some t' → ∃ new post, Grown g roots t new post t' := by
  induction roots generalizing t with
  | nil =>
    intro h
    cases h
    exact ⟨[], [], .refl fun r hr => absurd hr List.not_mem_nil⟩
  | cons m roots ih =>
    intro h
    obtain ⟨t₁, h₁, h₂⟩ := (visitAll_cons_eq_some_iff depth roots).1 h
    obtain ⟨new, post, hg⟩ := hvisit h₁
    obtain ⟨new', post', hg'⟩ := ih h₂
    exact ⟨_, _, hg.append hg'⟩

theorem visit_grown {depth : Nat} (h : g.visit depth t m = some t') :
    ∃ new post, Grown g [m] t new post t' := by
  induction depth generalizing t t' m with
  | zero =>
    by_cases hm : m ∈ t.started
    · rw [visit_of_started 0 hm] at h
      cases h
      exact ⟨[], [], .skip hm⟩
    · rw [visit_zero_of_notMem hm] at h
      cases h
  | succ depth ih =>
    by_cases hm : m ∈ t.started
    · rw [visit_of_started _ hm] at h
      cases h
      exact ⟨[], [], .skip hm⟩
    · rw [visit_succ_of_notMem depth hm] at h
      obtain ⟨t₁, h₁, rfl⟩ := Option.map_eq_some_iff.1 h
      obtain ⟨new, post, hg⟩ := visitAll_grown ih h₁
      exact ⟨_, _, hg.node hm⟩

/-- A traversal from one module finishes the modules that can be reached from it, each once, and
starts no other. -/
theorem visit_order {depth : Nat} {start : String} (h : g.visit depth {} start = some t) :
    t.finished.Nodup ∧ t.finished.Perm t.started
      ∧ ∀ x, x ∈ t.finished ↔ g.Reaches start x := by
  obtain ⟨new, post, hg⟩ := visit_grown h
  have hstarted : t.started = new := by rw [hg.started]; rfl
  have hfinished : t.finished = post := by rw [hg.finished]; rfl
  have hperm : t.finished.Perm t.started := by
    rw [hstarted, hfinished]
    exact hg.perm
  refine ⟨hperm.nodup_iff.2 (hstarted ▸ hg.nodup), hperm, ?_⟩
  intro x
  rw [hperm.mem_iff]
  constructor
  · intro hx
    rw [hstarted] at hx
    obtain ⟨r, hr, hreach⟩ := hg.reached x hx
    rwa [List.mem_singleton.1 hr] at hreach
  · intro hreach
    induction hreach with
    | refl => exact hg.visited start (List.mem_singleton_self start)
    | tail _ hd ih =>
      rw [hstarted] at ih
      exact hg.closed _ ih _ hd

end ModuleGraph

end ModuleHost
