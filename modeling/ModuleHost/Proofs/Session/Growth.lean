import ModuleHost.Proofs.Machine.Growth
import ModuleHost.Proofs.Session.Dispatches

/-!
# What code leaves behind stays

Whatever is asked of a host, and however it ends, the units of the table, the paths that were
loaded, the search path and the lines that were printed stand after it where they stood before; what
was bound is bound, and what was halted is halted (`requests_grow_host`).
-/

namespace ModuleHost

open Machine

theorem Request.enlarged (h : Host) (w : World) (r : Request) :
    h.Enlarged (r.start h w).loader := by
  cases r with
  | require name => exact callBuiltin_enlarged (idle h w) .require [.str name] trivial
  | load name => exact callBuiltin_enlarged (idle h w) .load [.str name] trivial
  | invoke unit scope args receiver => exact loader_enter (idle h w) unit scope args receiver

/-- From the moment at which a unit is invoked, or a module loaded or required, the host only grows:
at every moment it has all that it had before, and all that it had at any moment in between.  (While
a source is compiled the host is the one that waits for it.) -/
theorem requests_grow_host (h : Host) (w : World) (r : Request) (k n : Nat) :
    let m := fun k => (r.start h w).run k
    h.GrowsTo (m k).loader ∧ (m k).loader.GrowsTo (m (k + n)).loader
      ∧ ((m k).stack = [] → h.GrowsTo (m k).host) := by
  intro m
  have hsecluded : (r.start h w).Secluded := (r.obeys h w).secluded
  have hgrown : h.GrowsTo (m k).loader := (r.enlarged h w).toGrowsTo.trans (growsTo_run hsecluded k)
  refine ⟨hgrown, ?_, fun hend => ?_⟩
  · rw [show m (k + n) = (m k).run n from run_add _ k n]
    exact growsTo_run (hsecluded.run k) n
  · rwa [loader, hend] at hgrown

end ModuleHost
