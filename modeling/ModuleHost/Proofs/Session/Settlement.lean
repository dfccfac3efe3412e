import ModuleHost.Proofs.FileTree.Following
import ModuleHost.Proofs.Machine.Outcome

/-!
# What `require` leaves in the ledger

If failures are forgotten, then whatever runs while a module is required, the ledger comes out with
the same list of paths in progress, and with at most more paths at the end of the loaded ones:
`require_settles`.  The key of the outermost load is the last one in progress all the time
(`settled_of_begun`), so its end takes away that key and no other.
-/

namespace ModuleHost

open Machine Books

variable {h : Host} {w : World} {name path : String} {log : List DispatchEvent} {x : Machine}

namespace Books

theorem settled_singleton_iff {base : List String} {l : Ledger} {key : String} :
    Settled base ⟨l, [key]⟩ ↔ Settled (base ++ [key]) ⟨l, []⟩ := by
  constructor
  · rintro ⟨htidy, hloading⟩
    refine ⟨htidy, ?_⟩
    rw [hloading, List.reverse_singleton, List.reverse_nil, List.append_nil]
  · rintro ⟨htidy, hloading⟩
    refine ⟨htidy, ?_⟩
    rw [hloading, List.reverse_singleton, List.reverse_nil, List.append_nil]

end Books

/-- Whatever has run since the load of a key began, the key is the last one in progress. -/
theorem settled_of_begun (htidy : h.ledger.Tidy) (hf : h.ledger.state path = .fresh)
    (hx : Obeys true ⟨h.ledger.markLoading path, []⟩ log x) (hstack : x.stack = []) :
    Settled h.ledger.loading.entries ⟨x.host.ledger, [path]⟩
      ∧ h.ledger.loaded.entries <+: x.host.ledger.loaded.entries := by
  have hbooks : x.books = ⟨x.host.ledger, []⟩ := by
    rw [books, loader, hstack]
    rfl
  have hm := hx.moves
  rw [hbooks] at hm
  have hfirst : Settled h.ledger.loading.entries ⟨h.ledger, []⟩ :=
    ⟨htidy, (List.append_nil _).symm⟩
  have hbegun := settled_singleton_iff.1 (hfirst.move (.started hf))
  exact ⟨settled_singleton_iff.2 (hm.settled hbegun), hm.loaded_prefix⟩

/-- How the ledger has changed when a load has ended. -/
structure Settles (h : Host) (m : Machine) : Prop where
  loading : m.host.ledger.loading.entries = h.ledger.loading.entries
  loaded : h.ledger.loaded.entries <+: m.host.ledger.loaded.entries
  tidy : m.host.ledger.Tidy

theorem Settles.of_settled {m : Machine}
    (hs : Settled h.ledger.loading.entries ⟨m.host.ledger, []⟩)
    (hp : h.ledger.loaded.entries <+: m.host.ledger.loaded.entries) : Settles h m := by
  refine ⟨?_, hp, hs.tidy⟩
  have hloading := hs.loading
  rwa [List.reverse_nil, List.append_nil] at hloading

/-- The end of the outermost load, when it has failed. -/
theorem settles_failLoad {l : Load} (e : LoadError) (hkey : l.key = some path)
    (hretry : x.host.config.retryFailed = true)
    (hs : Settled h.ledger.loading.entries ⟨x.host.ledger, [path]⟩)
    (hp : h.ledger.loaded.entries <+: x.host.ledger.loaded.entries) :
    Settles h (x.failLoad l e) ∧ path ∉ (x.failLoad l e).host.ledger.loaded.entries := by
  rw [failLoad_eq, hkey, hretry]
  exact ⟨.of_settled (hs.move .failed) hp, hs.latest.2⟩

/-- The end of the outermost load, when it has ended well. -/
theorem settles_finishLoad {l : Load} (hkey : l.key = some path)
    (hs : Settled h.ledger.loading.entries ⟨x.host.ledger, [path]⟩)
    (hp : h.ledger.loaded.entries <+: x.host.ledger.loaded.entries) :
    Settles h (x.finishLoad l)
      ∧ (x.finishLoad l).host.ledger.loaded.entries.getLast? = some path := by
  rw [finishLoad_eq, hkey]
  refine ⟨.of_settled (hs.move .completed) (hp.trans (PathSet.prefix_insert _ _)), ?_⟩
  show (x.host.ledger.loaded.insert path).entries.getLast? = some path
  rw [PathSet.insert_of_notMem hs.latest.2, List.getLast?_concat]

/-- What a result of `require` says of the path that the name stands for.  A module that was run now
was not known before and is the last of the loaded ones; if none was run, the path was known and
nothing has changed; if the module has failed, it is not loaded. -/
def Answers (h : Host) (w : World) (name : String) (m : Machine) : Except LoadError Bool → Prop
  | .ok true => ∃ path, w.resolve h.searchPath name = .ok path
      ∧ path ∉ h.ledger.loaded.entries ∧ path ∉ h.ledger.loading.entries
      ∧ m.host.ledger.loaded.entries.getLast? = some path
  | .ok false => ∃ path, w.resolve h.searchPath name = .ok path
      ∧ (path ∈ h.ledger.loaded.entries ∨ path ∈ h.ledger.loading.entries)
      ∧ m.host = h ∧ m.world = w
  | .error _ => ∀ path, w.resolve h.searchPath name = .ok path →
      path ∉ m.host.ledger.loaded.entries

/-- When `require` has returned, failures being forgotten, the paths in progress are the same as
before, the loaded ones begin with those that were loaded before, no path stands in the ledger
twice, and the result is true of the path that the name stands for. -/
theorem require_settles {n : Nat} {m : Machine} {result : Except LoadError Bool}
    (hretry : h.config.retryFailed = true) (htidy : h.ledger.Tidy)
    (hrun : ((idle h w).require name).run n = m) (hstack : m.stack = [])
    (hresult : m.loaded? = some result) : Settles h m ∧ Answers h w name m result := by
  have hcases := require_cases (idle h w) name
  subst hrun
  generalize (idle h w).require name = d at hcases hstack hresult ⊢
  cases hcases with
  | @unresolved e hr =>
    rw [run_of_isDone rfl] at hresult ⊢
    cases hresult
    refine ⟨⟨rfl, List.prefix_rfl, htidy⟩, ?_⟩
    intro path hpath
    rw [show w.resolve h.searchPath name = .error e from hr] at hpath
    cases hpath
  | @known path hr hk =>
    rw [run_of_isDone rfl] at hresult ⊢
    cases hresult
    exact ⟨⟨rfl, List.prefix_rfl, htidy⟩, path, hr, hk, rfl, rfl⟩
  | @begun m₁ _ path hr hf hm hd =>
    subst hm
    obtain ⟨hloaded, hloading⟩ := (Ledger.state_eq_fresh_iff _ _).1 hf
    have hout := hd.outcome rfl hstack
    generalize d.run n = m at hout hresult ⊢
    -- a failure speaks of the path that was begun, whatever has run
    have hfailed : ∀ {x : Machine} {l : Load} {log : List DispatchEvent} (e : LoadError),
        l.key = some path → Obeys true ⟨h.ledger.markLoading path, []⟩ log x → x.stack = [] →
        Settles h (x.failLoad l e) ∧ Answers h w name (x.failLoad l e) (.error e) := by
      intro x l log e hkey hx hs
      obtain ⟨hsettled, hprefix⟩ := settled_of_begun htidy hf hx hs
      have hconfig : x.host.config.retryFailed = true := by
        have hc := hx.config
        rwa [loader, hs] at hc
      obtain ⟨hsettles, hnot⟩ := settles_failLoad e hkey hconfig hsettled hprefix
      refine ⟨hsettles, ?_⟩
      intro other ho
      rw [show w.resolve h.searchPath name = .ok path from hr] at ho
      cases ho
      exact hnot
    cases hout with
    | @refused m₂ l₁ e hp he =>
      have hx : Obeys true ⟨h.ledger.markLoading path, []⟩ [] m₂ := by
        refine obeys_begun hp.stack ?_ ?_
        · rw [hp.host]
          rfl
        · rw [hp.host]
          exact hretry
      rw [failLoad_eq] at hresult
      cases hresult
      exact hfailed e hp.key hx hp.stack
    | @failed x l₁ log e hkey hx hs he =>
      rw [failLoad_eq] at hresult
      cases hresult
      exact hfailed e hkey (hretry ▸ hx) hs
    | @finished x l₁ log hkey hx hs =>
      rw [finishLoad_eq] at hresult
      cases hresult
      obtain ⟨hsettled, hprefix⟩ := settled_of_begun htidy hf (hretry ▸ hx) hs
      obtain ⟨hsettles, hlast⟩ := settles_finishLoad hkey hsettled hprefix
      exact ⟨hsettles, path, hr, hloaded, hloading, hlast⟩

def haltModule : List UInt8 :=
  (Bytecode.Field.ofUnits [{ instructions := [{ opcode := .halt }] }]).flatMap Bytecode.Field.bytes

theorem require_settles_halt :
    ∃ m, Settles {} m
      ∧ Answers {} { files := .single "a.nlb" haltModule } "/a.nlb" m (.ok true) := by
  have hname : Path.IsName "a.nlb" := ⟨by decide, by decide, by decide, by decide, by decide⟩
  have hopen := FileTree.openEntry_single hname haltModule []
  let m := idle {} { files := .single "a.nlb" haltModule }
  have hrequire : m.require "/a.nlb" = _ :=
    require_bytecode (by decide) hopen (by decide +kernel) (by decide)
  have hend : ((m.require "/a.nlb").run 4).stack = []
      ∧ ((m.require "/a.nlb").run 4).loaded? = some (.ok true) := by
    rw [hrequire]
    decide +kernel
  exact ⟨_, require_settles rfl List.nodup_nil rfl hend.1 hend.2⟩

end ModuleHost
