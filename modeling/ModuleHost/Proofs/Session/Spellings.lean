import ModuleHost.Proofs.Loading.Spellings
import ModuleHost.Proofs.Session.Dispatches
import ModuleHost.Proofs.Session.Settlement

/-!
# Requiring one file under several names

All names of a file come to one key of the ledger.  So when a file has been required, it is not
loaded again, whatever the name under which it is required from then on: nothing is run and nothing
is changed (`spellings_share_key`).
-/

namespace ModuleHost

open Machine Books

variable {first h : Host} {w : World} {m x : Machine} {log : List DispatchEvent} {name : String}
  {l : Location} {searchPath₁ searchPath₂ : SearchPath} {name₁ name₂ : String}

/-- A host on which no load is waiting, in a session that began with an empty ledger. -/
def Host.Rested (h : Host) : Prop :=
  ∃ first m log, first.ledger = {} ∧ Session first m log ∧ m.stack = []
    ∧ h.ledger = m.host.ledger ∧ h.config = m.host.config

/-- The name has been required, without a failure, and `m` is the end of it. -/
def Machine.HasRequired (h : Host) (w : World) (name : String) (m : Machine) : Prop :=
  ∃ n ran, ((idle h w).require name).run n = m ∧ m.stack = [] ∧ m.loaded? = some (.ok ran)

/-- Whoever has the ledger of the machine and requires a name of the file at `l` is told that
nothing was run, and that is all that happens. -/
def Machine.PassesOver (m : Machine) (l : Location) : Prop :=
  ∀ y : Machine, y.host.ledger = m.loader.ledger → ∀ name,
    y.world.Spells y.host.searchPath name l →
      y.require name = { y with control := .returning (.bool false) }

/-- The ledger knows the key of the file. -/
theorem Machine.passesOver_of_known (hk : l.path ∈ m.loader.ledger.loaded.entries
    ∨ l.path ∈ m.loader.ledger.loading.entries) : m.PassesOver l := by
  intro y hy name hspells
  rw [← hy] at hk
  exact require_known hspells.resolve hk

/-- If failures are forgotten, a rested host is loading nothing. -/
theorem Host.Rested.loading (hrested : h.Rested) (hretry : h.config.retryFailed = true) :
    h.ledger.loading.entries = [] := by
  obtain ⟨first, m, log, hfirst, hsession, hstack, hledger, hconfig⟩ := hrested
  obtain ⟨-, hretry', hmoves⟩ := hsession.obeys.idle hstack {} hledger hconfig
  have hsettled : Settled [] ⟨first.ledger, []⟩ := by
    rw [hfirst]
    exact ⟨List.nodup_nil, rfl⟩
  rw [← hretry', show (idle h {}).loader.config.retryFailed = true from hretry] at hmoves
  exact (hmoves.settled hsettled).loading

/-- A file that has been required is loaded, unless its failure is remembered. -/
theorem Machine.HasRequired.known (hrested : h.Rested) (hspells : w.Spells h.searchPath name l)
    (hm : HasRequired h w name m) : l.path ∈ m.host.ledger.loaded.entries
      ∨ m.host.config.retryFailed = false ∧ l.path ∈ m.host.ledger.loading.entries := by
  obtain ⟨n, ran, rfl, hstack, hresult⟩ := hm
  have hresolve : w.resolve h.searchPath name = .ok l.path := hspells.resolve
  have hcases := require_cases (idle h w) name
  generalize (idle h w).require name = d at hcases hstack hresult ⊢
  cases hcases with
  | unresolved hr => cases hresolve.symm.trans hr
  | known hr hk =>
    cases hresolve.symm.trans hr
    rw [run_of_isDone rfl]
    refine hk.imp_right fun hloading => ?_
    cases hretry : h.config.retryFailed with
    | false => exact ⟨hretry, hloading⟩
    | true => exact absurd hloading (hrested.loading hretry ▸ List.not_mem_nil)
  | @begun m₁ _ path hr hf hm hd =>
    cases hresolve.symm.trans hr
    subst hm
    have hout := hd.outcome rfl hstack
    generalize d.run n = m at hout hresult ⊢
    cases hout with
    | refused | failed =>
      rw [failLoad_eq] at hresult
      cases hresult
    | @finished y l₁ _ hkey =>
      have hkey : l₁.key = some l.path := hkey
      rw [finishLoad_eq, hkey]
      exact Or.inl ((PathSet.mem_insert _ _ _).2 (Or.inr rfl))

/-- What a host knows when a session begins it does not lose. -/
theorem Session.known (hsession : Session first x log) {key : String}
    (hk : key ∈ first.ledger.loaded.entries
      ∨ first.config.retryFailed = false ∧ key ∈ first.ledger.loading.entries) :
    key ∈ x.loader.ledger.loaded.entries ∨ key ∈ x.loader.ledger.loading.entries := by
  obtain ⟨-, -, hmoves⟩ := hsession.obeys
  rcases hk with hloaded | ⟨hretry, hloading⟩
  · exact Or.inl (hmoves.loaded_prefix.subset hloaded)
  · rw [hretry] at hmoves
    have hknown : first.ledger.state key ≠ .fresh := by
      rw [ne_eq, Ledger.state_eq_fresh_iff]
      exact fun hfresh => hfresh.2 hloading
    have hstays : x.loader.ledger.state key ≠ .fresh := hmoves.known hknown
    rwa [ne_eq, Ledger.state_eq_fresh_iff, not_and_or, not_not, not_not] at hstays

/-- What a session has started to load is known until it has failed. -/
theorem Session.known_of_dispatched (hsession : Session first x log) {key : String}
    (hk : .completed key ∈ log ∨ key ∈ keys x.stack) :
    key ∈ x.loader.ledger.loaded.entries ∨ key ∈ x.loader.ledger.loading.entries := by
  obtain ⟨-, -, hmoves⟩ := hsession.obeys
  rcases hk with hcompleted | hunderway
  · exact Or.inl (hmoves.mem_loaded_of_completed hcompleted)
  · exact Or.inr (((consistent_nil first.ledger).moves hmoves).loading key hunderway)

/-- Two names of one file come to the same path, the path of its place.  A path to which a name has
come stands for itself under every search path.  When one of the names has been required without a
failure, then from that moment on whoever requires any name of the file is told that nothing was
run, nothing runs, and the whole machine is as it was; and so it is in the middle of a session,
where a load of the file has been completed or is in progress. -/
theorem spellings_share_key (hw : w.files.WellFormed) (h₁ : w.Spells searchPath₁ name₁ l)
    (h₂ : w.Spells searchPath₂ name₂ l) :
    w.resolve searchPath₁ name₁ = .ok l.path ∧ w.resolve searchPath₂ name₂ = .ok l.path
      ∧ (∀ searchPath name path, w.resolve searchPath name = .ok path →
          ∀ other, w.resolve other path = .ok path)
      ∧ (∀ h m, h.Rested → h.searchPath = searchPath₁ → HasRequired h w name₁ m →
          ∀ x log, Session m.host x log → x.PassesOver l)
      ∧ ∀ first x log, Session first x log → .completed l.path ∈ log ∨ l.path ∈ keys x.stack →
          x.PassesOver l := by
  refine ⟨h₁.resolve, h₂.resolve, ?_, ?_, ?_⟩
  · intro searchPath name path hresolve other
    exact World.resolve_resolved hw hresolve other
  · rintro h m hrested rfl hrequired x log hsession
    exact passesOver_of_known (hsession.known (hrequired.known hrested h₁))
  · intro first x log hsession hdispatched
    exact passesOver_of_known (hsession.known_of_dispatched hdispatched)

/-! ### A file behind a link -/

namespace Linked

open FileTree

/-- The file is in `lib`, and `old` is another name of that directory. -/
def world : World where
  files := { entries := [(["lib"], .directory), (["lib", "a.nlb"], .file haltModule),
    (["old"], .link "lib")] }

def host : Host where
  searchPath := { dirs := ["/lib"] }

theorem wellFormed : world.files.WellFormed := by
  refine wellFormed_of_entries fun entry hentry name directory hl => ?_
  have hlast : name = entry.1.getLastD "" ∧ directory = entry.1.dropLast := by
    rw [hl]
    simp
  obtain ⟨rfl, rfl⟩ := hlast
  rcases hentry with _ | ⟨_, _ | ⟨_, _ | ⟨_, hnil⟩⟩⟩
  · exact ⟨⟨by decide, by decide, by decide, by decide, by decide⟩, by decide⟩
  · exact ⟨⟨by decide, by decide, by decide, by decide, by decide⟩, by decide⟩
  · exact ⟨⟨by decide, by decide, by decide, by decide, by decide⟩, by decide⟩
  · cases hnil

theorem follow_lib (links : Nat) (rest : List String) :
    world.files.follow .locate links [] ("lib" :: rest)
      = world.files.follow .locate links ["lib"] rest :=
  follow_entry (e := .directory) rfl ⟨by decide, by decide, rfl, by decide⟩ nofun
    (by decide)

theorem follow_old (links : Nat) (rest : List String) :
    world.files.follow .locate (links + 1) [] ("old" :: rest)
      = world.files.follow .locate links ["lib"] rest := by
  have hlink : world.files.entryAt? ([] ++ ["old"]) = some (.link "lib") := by decide
  rw [follow_link rfl ⟨by decide, by decide, rfl, by decide⟩ hlink]
  exact follow_lib links rest

theorem follow_a (links : Nat) : world.files.follow .locate links ["lib"] ["a.nlb"]
    = .ok (.present ["lib", "a.nlb"]) := by
  rw [follow_entry (e := .file haltModule) (by decide)
    ⟨by decide, by decide, rfl, by decide⟩ nofun (by decide), follow]
  rfl

theorem canonicalize_lib :
    world.files.canonicalize [] "/lib/a.nlb" = .ok ["lib", "a.nlb"] := by
  rw [canonicalize_eq_ok_iff, place, if_neg (by decide), if_neg (by decide), if_neg (by decide),
    show Path.pieces "/lib/a.nlb" = ["", "lib", "a.nlb"] from rfl, if_pos (by decide),
    follow_idle rfl rfl, follow_lib, follow_a]

theorem canonicalize_old :
    world.files.canonicalize [] "././old/../old/a.nlb" = .ok ["lib", "a.nlb"] := by
  rw [canonicalize_eq_ok_iff, place, if_neg (by decide), if_neg (by decide), if_neg (by decide),
    show Path.pieces "././old/../old/a.nlb" = [".", ".", "old", "..", "old", "a.nlb"] from rfl,
    if_neg (by decide), follow_idle rfl rfl, follow_idle rfl rfl, maxLinks, follow_old,
    follow_parent (by decide), List.dropLast_singleton, follow_old, follow_a]

/-- A name with one candidate, which leads to the file. -/
theorem spells {name candidate : String} (hrelative : Path.isAbsolute name = false)
    (hcandidates : World.candidates host.searchPath name = [candidate])
    (hlocate : world.files.canonicalize [] candidate = .ok ["lib", "a.nlb"]) :
    world.Spells host.searchPath name ["lib", "a.nlb"] := by
  refine .relative hrelative (World.locates_of_canonicalize fun other ho => ?_)
    ⟨[], candidate, [], hcandidates, ⟨leadsTo_of_canonicalize hlocate, haltModule, ?_⟩, nofun⟩
  · rw [hcandidates, List.mem_singleton] at ho
    exact ⟨_, ho ▸ hlocate⟩
  · decide

theorem spells_lib : world.Spells host.searchPath "a.nlb" ["lib", "a.nlb"] :=
  spells (by decide) (by decide) canonicalize_lib

theorem spells_old : world.Spells host.searchPath "./old/../old/a.nlb" ["lib", "a.nlb"] :=
  spells (by decide) (by decide) canonicalize_old

theorem rested : host.Rested :=
  ⟨host, idle host world, [], rfl, .begin world, rfl, rfl, rfl⟩

theorem hasRequired : ∃ m, HasRequired host world "a.nlb" m := by
  have hfile : world.files.entryAt? ["lib", "a.nlb"] = some (.file haltModule) := by
    decide
  have hopen := openEntry_of_canonicalize wellFormed canonicalize_lib hfile []
  have hrequire : (idle host world).require "a.nlb" = _ :=
    require_of_resolve spells_lib.resolve hopen (by decide) (by decide)
  have hend : (((idle host world).require "a.nlb").run 4).stack = []
      ∧ (((idle host world).require "a.nlb").run 4).loaded? = some (.ok true) := by
    rw [hrequire]
    decide
  exact ⟨_, 4, true, rfl, hend.1, hend.2⟩

end Linked

theorem spellings_share_key_linked :
    Linked.world.files.WellFormed
      ∧ Linked.world.Spells Linked.host.searchPath "a.nlb" ["lib", "a.nlb"]
      ∧ Linked.world.Spells Linked.host.searchPath "./old/../old/a.nlb" ["lib", "a.nlb"]
      ∧ ∃ m, HasRequired Linked.host Linked.world "a.nlb" m
        ∧ ∀ y : Machine, y.host.ledger = m.host.ledger → y.host.searchPath = Linked.host.searchPath →
          y.world = Linked.world →
          y.require "./old/../old/a.nlb" = { y with control := .returning (.bool false) } := by
  obtain ⟨-, -, -, honce, -⟩ :=
    spellings_share_key Linked.wellFormed Linked.spells_lib Linked.spells_old
  obtain ⟨m, hm⟩ := Linked.hasRequired
  refine ⟨Linked.wellFormed, Linked.spells_lib, Linked.spells_old, m, hm, ?_⟩
  intro y hledger hsearchPath hworld
  have hpasses := honce _ _ Linked.rested rfl hm _ _ (.begin m.world)
  refine hpasses y hledger _ ?_
  rw [hsearchPath, hworld]
  exact Linked.spells_old

end ModuleHost
