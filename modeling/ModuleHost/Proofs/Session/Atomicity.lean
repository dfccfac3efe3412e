import ModuleHost.Proofs.Session.Dispatches
import ModuleHost.Proofs.Machine.Outcome

/-!
# Failures without an exception

A module that is not found, has no kind, cannot be read, compiled or opened fails before any of its
code has run.  Such a failure leaves the host and the files as they were
(`unraised_failures_atomic`): all that stays behind is the numbering of temporary files and, if
failures are not forgotten, the path in the loading list.  For the files it matters that a temporary
one is made only where nothing is, and removed again.
-/

namespace ModuleHost

open Machine Books

variable {m m' : Machine} {l : Load} {n : Nat} {key? : Option String}

/-- The machine has come to its end by a failure that is no exception. -/
def Machine.FailedUnraised (m : Machine) : Prop :=
  m.stack = [] ∧ ∃ e, m.loaded? = some (.error e) ∧ e.isRaised = false

def World.SameButNumbering (w w' : World) : Prop :=
  ∃ next, w.nextArtifact ≤ next ∧ w' = { w with nextArtifact := next }

/-- Without its temporary file a load leaves the world as it was. -/
theorem Machine.Prepared.discard {m₁ : Machine} {l₁ : Load} (hp : Prepared m l m₁ l₁)
    (hl : l.artifact = none) : m.world.SameButNumbering (m₁.world.discard l₁.artifact) := by
  obtain ⟨next, hnext, hcases⟩ := World.createArtifact_cases m.host.config m.world
  cases hp with
  | plain =>
    rw [hl]
    exact ⟨m.world.nextArtifact, Nat.le_refl _, rfl⟩
  | @missed e world h =>
    rcases hcases with ⟨e', he⟩ | ⟨a, -, ha⟩
    · rw [he] at h
      cases h
      rw [hl]
      exact ⟨next, hnext, rfl⟩
    · rw [ha] at h
      cases h
  | @made a world h =>
    rcases hcases with ⟨e', he⟩ | ⟨a', hfree, ha⟩
    · rw [he] at h
      cases h
    · rw [ha] at h
      cases h
      refine ⟨next, hnext, ?_⟩
      show World.removeArtifact _ a = _
      rw [World.removeArtifact, FileTree.erase_insert hfree]

/-- A refused load changes nothing but the numbering and, as failures are kept, the ledger. -/
theorem Machine.Outcome.unraised (ho : Outcome m (m.newLoad key?) m')
    (hcompiler : m.host.compiler = .onRequest) (hf : m'.FailedUnraised) :
    m.world.SameButNumbering m'.world
      ∧ m'.host = { m.host with
          ledger := m.host.ledger.abandoned m.host.config.retryFailed key? } := by
  obtain ⟨-, e, he, hr⟩ := hf
  cases ho with
  | @refused m₁ l₁ e' hp _ =>
    have hw := hp.discard rfl
    have harena : m.host.restoreArena l₁.arenaMark = m.host := by
      rw [Host.restoreArena, hp.arenaMark, newLoad, List.take_length]
    rw [failLoad_eq, hp.host, hp.key, harena]
    exact ⟨hw, rfl⟩
  | finished hkey hx hs =>
    rw [finishLoad_eq] at he
    cases he
  | @failed x l₁ log e' hkey hx hs hraised =>
    rw [failLoad_eq] at he
    cases he
    rw [hraised hcompiler] at hr
    cases hr

theorem World.SameButNumbering.refl (w : World) : w.SameButNumbering w :=
  ⟨w.nextArtifact, Nat.le_refl _, rfl⟩

variable {h : Host} {w : World} {name path : String}

theorem load_unraised (hcompiler : h.compiler = .onRequest)
    (hf : (((idle h w).load name).run n).FailedUnraised) :
    w.SameButNumbering (((idle h w).load name).run n).world
      ∧ (((idle h w).load name).run n).host = h := by
  unfold Machine.load at hf ⊢
  cases hr : (idle h w).world.resolve (idle h w).host.searchPath name with
  | error e =>
    dsimp only
    rw [run_of_isDone rfl]
    exact ⟨.refl w, rfl⟩
  | ok path =>
    rw [hr] at hf
    dsimp only at hf ⊢
    exact ((dispatch_cases _ _ path).outcome rfl hf.1).unraised hcompiler hf

/-- The host after a `require` that has failed without an exception. -/
def Host.afterRefusal (h : Host) (resolved : Except LoadError String) : Host :=
  match resolved with
  | .error _ => h
  | .ok path =>
    if h.config.retryFailed then h
    else { h with ledger := { h.ledger with
        loading := { entries := h.ledger.loading.entries ++ [path] } } }

theorem Ledger.abandoned_markLoading {l : Ledger} (hf : l.state path = .fresh) (retry : Bool) :
    (l.markLoading path).abandoned retry (some path)
      = if retry then l else { l with loading := { entries := l.loading.entries ++ [path] } } := by
  obtain ⟨-, hn⟩ := (Ledger.state_eq_fresh_iff _ _).1 hf
  cases retry with
  | true =>
    show { l with loading := (l.loading.insert path).erase path } = l
    rw [PathSet.erase_insert hn]
  | false =>
    show { l with loading := l.loading.insert path } = _
    rw [← PathSet.insert_of_notMem hn]
    rfl

theorem require_unraised (hcompiler : h.compiler = .onRequest)
    (hf : (((idle h w).require name).run n).FailedUnraised) :
    w.SameButNumbering (((idle h w).require name).run n).world
      ∧ (((idle h w).require name).run n).host
          = h.afterRefusal (w.resolve h.searchPath name) := by
  have hcases := require_cases (idle h w) name
  generalize (idle h w).require name = d at hcases hf ⊢
  cases hcases with
  | @unresolved e hr =>
    rw [run_of_isDone rfl, show w.resolve h.searchPath name = .error e from hr]
    exact ⟨.refl w, rfl⟩
  | @known path hr hk =>
    obtain ⟨-, e, he, -⟩ := hf
    rw [run_of_isDone rfl] at he
    cases he
  | @begun m₁ _ path hr hfresh hm hd =>
    subst hm
    obtain ⟨hworld, hhost⟩ := (hd.outcome rfl hf.1).unraised hcompiler hf
    refine ⟨hworld, ?_⟩
    rw [hhost, show w.resolve h.searchPath name = .ok path from hr, Host.afterRefusal]
    dsimp only
    rw [Ledger.abandoned_markLoading hfresh, show (idle h w).host = h from rfl]
    cases hretry : h.config.retryFailed <;> rfl

/-- A `load` or a `require` that fails without an exception leaves the host as it was and the world
but for the numbering of temporary files; only if failures are kept, a `require` leaves the path it
was to load at the end of the loading list.  If they are forgotten, every later request starts from
the very machine it would have started from without the failed one, whatever has become of the
files. -/
theorem unraised_failures_atomic (hcompiler : h.compiler = .onRequest) (name : String) (n : Nat) :
    ((((idle h w).load name).run n).FailedUnraised →
      w.SameButNumbering (((idle h w).load name).run n).world
        ∧ (((idle h w).load name).run n).host = h)
    ∧ ((((idle h w).require name).run n).FailedUnraised →
      w.SameButNumbering (((idle h w).require name).run n).world
        ∧ (((idle h w).require name).run n).host
            = h.afterRefusal (w.resolve h.searchPath name))
    ∧ ∀ m, (m = ((idle h w).load name).run n ∨ m = ((idle h w).require name).run n) →
        m.FailedUnraised → h.config.retryFailed = true →
        ∀ (files : FileTree) (r : Request), ∃ next, w.nextArtifact ≤ next
          ∧ r.start m.host { m.world with files } = r.start h { w with files, nextArtifact := next }
            := by
  refine ⟨load_unraised hcompiler, require_unraised hcompiler, ?_⟩
  have hsame : ∀ {m : Machine}, w.SameButNumbering m.world → m.host = h →
      ∀ (files : FileTree) (r : Request), ∃ next, w.nextArtifact ≤ next
        ∧ r.start m.host { m.world with files }
          = r.start h { w with files, nextArtifact := next } := by
    rintro m ⟨next, hnext, hw⟩ hhost files r
    refine ⟨next, hnext, ?_⟩
    rw [hhost, hw]
  rintro m (rfl | rfl) hf hretry
  · obtain ⟨hw, hhost⟩ := load_unraised hcompiler hf
    exact hsame hw hhost
  · obtain ⟨hw, hhost⟩ := require_unraised hcompiler hf
    refine hsame hw ?_
    rw [hhost]
    cases w.resolve h.searchPath name with
    | error e => rfl
    | ok path => exact if_pos hretry

/-- An empty file is refused, and the host is as it was. -/
theorem unraised_failures_atomic_empty :
    ∃ m, m = ((idle {} { files := .single "a.nlb" [] }).require "/a.nlb").run 0
      ∧ m.FailedUnraised ∧ m.host = {} := by
  have hname : Path.IsName "a.nlb" := ⟨by decide, by decide, by decide, by decide, by decide⟩
  have hopen := FileTree.openEntry_single hname [] []
  let m := idle {} { files := .single "a.nlb" [] }
  have hresolve : m.world.resolve m.host.searchPath "/a.nlb" = .ok "/a.nlb" :=
    World.resolve_of_openEntry (by decide) hopen _
  have hrequire : m.require "/a.nlb" = _ :=
    require_bytecode (by decide) hopen (by decide +kernel) (by decide)
  have hfailed : ((m.require "/a.nlb").run 0).FailedUnraised := by
    refine ⟨?_, .unreadable "/a.nlb" (.bytecode (.stream .ended)), ?_, rfl⟩
    all_goals
      rw [hrequire]
      decide +kernel
  obtain ⟨_, hatomic, _⟩ := unraised_failures_atomic (h := {}) (w := m.world) rfl "/a.nlb" 0
  obtain ⟨_, hhost⟩ := hatomic hfailed
  refine ⟨_, rfl, hfailed, hhost.trans ?_⟩
  rw [show m.world.resolve ({} : Host).searchPath "/a.nlb" = .ok "/a.nlb" from hresolve]
  rfl

end ModuleHost
