import ModuleHost.Proofs.Machine.SideBySide

/-!
# Runs abreast

Two machines that run the same code in the same world stay abreast
(`Machine.abreast_run_of_sameWorld`).

If a load with a temporary file waits below the first machine it is one temporary file ahead: the
number that it has given out last is the one that comes next in the second machine (`World.Lags`).
As long as neither resolves a name to a temporary file, and the first can make those that it needs,
they stay abreast as well (`Machine.abreast_run`).
-/

namespace ModuleHost

/-- In the world `w₀` the temporary file that is made next when the counter is `n'` leaves the
counter at `n`. -/
def World.Lags (config : LoaderConfig) (w₀ : World) (n n' : Nat) : Prop :=
  ∃ a v, ({ w₀ with nextArtifact := n' } : World).createArtifact config = (.ok a, v)
    ∧ v.nextArtifact = n

variable {L : Likeness} {config : LoaderConfig} {w₀ : World}

section

variable {artifacts artifacts' : List Artifact} {w w' : World}

/-- Both worlds can make a temporary file if the first can, and the second still lags behind. -/
theorem World.Carries.creates (h : w₀.Carries config artifacts w)
    (h' : w₀.Carries config artifacts' w') (hL : L.counters = World.Lags config w₀)
    (hs : ¬ L.sameWorld) (hn : L.counters w.nextArtifact w'.nextArtifact)
    (hc : ∃ a v, w.createArtifact config = (.ok a, v)) : World.Creates L config w w' := by
  obtain ⟨a, v, hc⟩ := hc
  rw [hL] at hn
  obtain ⟨a', v₀, hbase, hnext⟩ := hn
  obtain ⟨n, -, -, -, -, hc'⟩ := h'.available.createArtifact (congrArg Prod.fst hbase)
  obtain ⟨k, -, -, -, rfl, hfirst⟩ := h.createArtifact hc
  refine .made hc hc' (fun hsame => absurd hsame hs) ⟨?_, fun hsame => absurd hsame hs⟩
  -- the second machine now comes to the number from which the first one has started
  obtain ⟨k', -, -, -, hv, hsecond⟩ := h'.createArtifact hc'
  have hnumber : n + 1 = w.nextArtifact := by
    have hk : n + 1 = k' + 1 := congrArg World.nextArtifact hv
    have hv₀ := congrArg Prod.snd (hbase.symm.trans hsecond)
    rw [hk, ← hnext]
    exact (congrArg World.nextArtifact hv₀).symm
  rw [hL]
  dsimp only
  rw [hnumber]
  exact ⟨a, _, hfirst, rfl⟩

/-- The worlds agree on a module that neither takes for a temporary file. -/
theorem World.Carries.agrees (h : World.Carries config w₀ artifacts w)
    (h' : World.Carries config w₀ artifacts' w') (hL : L.counters = World.Lags config w₀)
    (hs : ¬ L.sameWorld) (hn : L.counters w.nextArtifact w'.nextArtifact)
    (hc : ∃ a v, w.createArtifact config = (.ok a, v)) {host : Host}
    (hconfig : host.config = config) {name : String}
    (hnames : ∀ path, w.resolve host.searchPath name = .ok path →
      ∀ a ∈ artifacts, ¬ w.Names path a)
    (hnames' : ∀ path, w'.resolve host.searchPath name = .ok path →
      ∀ a ∈ artifacts', ¬ w'.Names path a) :
    w.Agrees L host name w' := by
  have hresolve : w'.resolve host.searchPath name = w.resolve host.searchPath name :=
    (h'.resolve hnames').trans (h.resolve hnames).symm
  refine ⟨hresolve, fun path hr => ⟨fun e => ?_, ?_⟩⟩
  · exact (h.openEntry (hnames path hr) e).trans
      (h'.openEntry (hnames' path (hresolve.trans hr)) e).symm
  · rw [hconfig]
    exact h.creates h' hL hs hn hc

end

namespace Machine

/-- In the same world the machines stay abreast. -/
theorem abreast_run_of_sameWorld {m m' : Machine} (hs : L.sameWorld) (h : m.Abreast L m')
    (hknown : ∀ k, L.Knows (m.run k)) (n : Nat) : (m.run n).Abreast L (m'.run n) := by
  induction n with
  | zero => exact h
  | succ n ih =>
    rw [run_succ', run_succ']
    refine ih.step (hknown n) fun name hname => ?_
    rw [(ih.of_resolves hname).world.same hs]
    exact .refl hs _ name _

/-- While the second machine is a temporary file behind the machines stay abreast. -/
theorem abreast_run {m m' : Machine} {below : List Activation}
    (hL : L.counters = World.Lags config w₀) (hs : ¬ L.sameWorld) (h : m.Abreast L m')
    (hcarries : (m.above below).Carries config w₀) (hcarries' : m'.Carries config w₀)
    (hknown : ∀ k, L.Knows (m.run k)) (hcreate : ∀ k, ((m.above below).run k).CanCreate)
    (hresolves : ∀ k, ¬ ((m.above below).run k).ResolvesArtifact)
    (hresolves' : ∀ k, ¬ (m'.run k).ResolvesArtifact) (n : Nat) :
    (m.run n).Abreast L (m'.run n) := by
  induction n with
  | zero => exact h
  | succ n ih =>
    rw [run_succ', run_succ']
    cases hdone : (m.run n).isDone with
    | true =>
      rw [step_of_isDone hdone, step_of_isDone (ih.isDone.trans hdone)]
      exact ih
    | false =>
      have habove := run_above_of_not_isDone hdone below
      have hworld := (hcarries.run n).world
      have hhost := (hcarries.run n).host
      have hcan := hcreate n
      have hnot := hresolves n
      rw [habove] at hworld hhost hcan hnot
      refine ih.step (hknown n) fun name hname => ?_
      have halike := ih.of_resolves hname
      refine World.Carries.agrees hworld (hcarries'.run n).world hL hs halike.world.counters ?_
        hhost ?_ ?_
      · rw [← hhost]
        exact hcan
      · intro path hr a ha hnames
        exact hnot ⟨name, path, hname, hr, a, ha, hnames⟩
      · intro path hr a ha hnames
        refine hresolves' n ⟨name, path, halike.resolves hname, ?_, a, ha, hnames⟩
        rw [halike.host.read (·.searchPath) fun _ _ _ => rfl]
        exact hr

end Machine

end ModuleHost
