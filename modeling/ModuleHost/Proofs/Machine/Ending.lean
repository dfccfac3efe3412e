import ModuleHost.Machine.Session
import ModuleHost.Proofs.Ledger.Basic

/-!
# The end of a load

However a load ends, it cuts the arena back, removes its temporary file and settles the ledger, and
leaves everything else as it is.
-/

namespace ModuleHost

/-- The world without the temporary file of a load, if the load has one. -/
def World.discard (w : World) (artifact? : Option Artifact) : World :=
  match artifact? with
  | some a => w.removeArtifact a
  | none => w

/-- A load that has left nothing in the arena leaves the host as it is. -/
theorem Host.restoreArena_length (h : Host) : h.restoreArena h.arena.length = h := by
  rw [Host.restoreArena, List.take_length]

namespace Machine

theorem release_eq (m : Machine) (l : Load) :
    m.release l = { m with
      host := m.host.restoreArena l.arenaMark
      world := m.world.discard l.artifact } := by
  cases h : l.artifact <;> simp only [release, removeArtifact, World.discard, h]

theorem finishLoad_eq (m : Machine) (l : Load) :
    m.finishLoad l = { m with
      host := { m.host.restoreArena l.arenaMark with ledger := m.host.ledger.completed l.key }
      world := m.world.discard l.artifact
      control := .returning (.bool true) } := by
  cases h : l.key <;> simp only [finishLoad, release_eq, Ledger.completed, h] <;> rfl

theorem failLoad_eq (m : Machine) (l : Load) (e : LoadError) :
    m.failLoad l e = { m with
      host := { m.host.restoreArena l.arenaMark with
        ledger := m.host.ledger.abandoned m.host.config.retryFailed l.key }
      world := m.world.discard l.artifact
      control := .failing e } := by
  cases h : l.key with
  | none => simp only [failLoad, release_eq, Ledger.abandoned, h]; rfl
  | some key =>
    cases hr : m.host.config.retryFailed <;>
      simp [failLoad, release_eq, Ledger.abandoned, h, hr, Host.restoreArena, mapLedger]

end Machine

end ModuleHost
