import ModuleHost.Proofs.Loading.Artifact

/-!
# Temporary files side by side

While modules are being loaded their temporary files are there, each under a number of its own.
None of them is in the way of another one, nor of a module: the name of a temporary file ends in a
dot and a number.  So what could be made in the world as it was at first can be made in every world
that has more temporary files (`Available`).
-/

namespace ModuleHost

namespace World

variable {w : World} {config : LoaderConfig}

section

variable {directory : Location}
  (h : FileTree.InDirectory w.files w.cwd (w.artifactPath config w.nextArtifact) directory)
  (hv : w.files.entryAt?
    (directory ++ [FileTree.lastName (w.artifactPath config w.nextArtifact)]) = none)

include h hv

/-- A temporary file is made under the number that comes next if nothing is there. -/
theorem createArtifact_eq : w.createArtifact config
    = (.ok {
        path := w.artifactPath config w.nextArtifact
        location := directory ++ [FileTree.lastName (w.artifactPath config w.nextArtifact)] },
      { w with
        files := w.files.insert
          (directory ++ [FileTree.lastName (w.artifactPath config w.nextArtifact)]) (.file [])
        nextArtifact := w.nextArtifact + 1 }) := by
  refine Creation.createArtifact_eq ?_
  exact .made (Nat.le_refl _) (Nat.le_add_right _ _) (fun k hk hlt => absurd hlt (Nat.not_lt.2 hk))
    ⟨directory, h, rfl, hv⟩

theorem exists_createArtifact : ∃ a, (w.createArtifact config).1 = .ok a := by
  rw [createArtifact_eq h hv]
  exact ⟨_, rfl⟩

end

/-- A temporary file is made in the root. -/
theorem createArtifact_inRoot {name : String} (hname : Path.IsName name)
    (hpath : w.artifactPath config w.nextArtifact = Location.path [name])
    (hlast : FileTree.lastName (Location.path [name]) = name)
    (hvacant : w.files.entryAt? [name] = none) :
    w.createArtifact config = (.ok { path := Location.path [name], location := [name] },
      { w with
        files := w.files.insert [name] (.file [])
        nextArtifact := w.nextArtifact + 1 }) := by
  have hshort := Path.utf8ByteSize_path_singleton hname
  have hin := FileTree.inDirectory_path (FileTree.directoryAt_root w.files) hname hshort w.cwd
  rw [List.nil_append, ← hpath] at hin
  rw [← hpath] at hlast
  rw [createArtifact_eq hin, hlast, hpath]
  · rfl
  · rw [hlast]
    exact hvacant

end World

/-! ### More temporary files -/

/-- The world `w` is `w₀` with more temporary files, under numbers that have been given out. -/
structure Available (config : LoaderConfig) (w₀ w : World) : Prop where
  cwd : w.cwd = w₀.cwd
  environment : w.environment = w₀.environment
  processNumber : w.processNumber = w₀.processNumber
  counter : w₀.nextArtifact ≤ w.nextArtifact
  keeps : FileTree.Keeps w₀.files w.files
  vacant : ∀ l, w₀.files.entryAt? l = none →
    (∀ n < w.nextArtifact, l.getLast? ≠ some (FileTree.lastName (w₀.artifactPath config n))) →
    w.files.entryAt? l = none

namespace Available

variable {config : LoaderConfig} {w w₀ : World} {n : Nat} {l : Location} {a : Artifact}

theorem refl (config : LoaderConfig) (w : World) : Available config w w :=
  ⟨rfl, rfl, rfl, Nat.le_refl _, fun _ _ h => h, fun _ h _ => h⟩

theorem artifactPath (h : Available config w₀ w) (n : Nat) :
    w.artifactPath config n = w₀.artifactPath config n := by
  rw [World.artifactPath, World.tempDir, h.environment, h.processNumber]
  rfl

theorem advance (h : Available config w₀ w) (hn : w.nextArtifact ≤ n) :
    Available config w₀ { w with nextArtifact := n } where
  cwd := h.cwd
  environment := h.environment
  processNumber := h.processNumber
  counter := Nat.le_trans h.counter hn
  keeps := h.keeps
  vacant l hl hnames := h.vacant l hl fun k hk => hnames k (Nat.lt_of_lt_of_le hk hn)

/-- What is taken at first is taken now. -/
theorem taken (h : Available config w₀ w) (ht : w₀.Taken config n) : w.Taken config n := by
  obtain ⟨directory, hin, e, he⟩ := ht
  rw [World.Taken, h.artifactPath, h.cwd]
  exact ⟨directory, hin.mono h.keeps, e, h.keeps _ _ he⟩

/-- A number that has not been given out is free if it was free at first. -/
theorem freeAt (h : Available config w₀ w) (hn : w.nextArtifact ≤ n) (hf : w₀.FreeAt config n l) :
    w.FreeAt config n l := by
  have hlast := hf.getLast?
  obtain ⟨directory, hin, hl, hvacant⟩ := hf
  rw [World.FreeAt, h.artifactPath, h.cwd]
  refine ⟨directory, hin.mono h.keeps, hl, h.vacant l hvacant fun k hk hk' => ?_⟩
  have hkn := World.lastName_artifactPath_inj (Option.some.inj (hlast.symm.trans hk'))
  omega

/-- A temporary file that could be made at first under the numbers that come next is made now. -/
theorem createArtifact (h : Available config w₀ w)
    (ha : (World.createArtifact { w₀ with nextArtifact := w.nextArtifact } config).1 = .ok a) :
    ∃ n, w.nextArtifact ≤ n ∧ n < w.nextArtifact + World.artifactAttempts
      ∧ a.location.getLast? = some (FileTree.lastName (w₀.artifactPath config n))
      ∧ w.files.entryAt? a.location = none
      ∧ w.createArtifact config = (.ok a, { w with
          files := w.files.insert a.location (.file [])
          nextArtifact := n + 1 }) := by
  generalize World.createArtifact _ config = r,
    World.creation_createArtifact { w₀ with nextArtifact := w.nextArtifact } config = hc at ha
  cases hc with
  | refused | exhausted => cases ha
  | @made n l hfrom hto htaken hfree =>
    cases ha
    have hfree' : w.FreeAt config n l := h.freeAt hfrom hfree
    refine ⟨n, hfrom, Nat.lt_succ_of_le hto, hfree.getLast?, hfree'.vacant, ?_⟩
    have htaken' : ∀ k, w.nextArtifact ≤ k → k < n → w.Taken config k :=
      fun k hk hlt => h.taken (htaken k hk hlt)
    have hmade := World.Creation.made (w := w) hfrom hto htaken' hfree'
    rw [h.artifactPath] at hmade
    exact hmade.createArtifact_eq

/-- A world with one more temporary file. -/
theorem made (h : Available config w₀ w) (hn : w.nextArtifact ≤ n)
    (hlast : a.location.getLast? = some (FileTree.lastName (w₀.artifactPath config n)))
    (hv : w.files.entryAt? a.location = none) (bytes : List UInt8) :
    Available config w₀ { w with
      files := (w.files.insert a.location (.file [])).replace a.location (.file bytes)
      nextArtifact := n + 1 } where
  cwd := h.cwd
  environment := h.environment
  processNumber := h.processNumber
  counter := Nat.le_trans h.counter (Nat.le_succ_of_le hn)
  keeps := by
    intro l e he
    have hw := h.keeps l e he
    have hne : l ≠ a.location := by
      rintro rfl
      rw [hv] at hw
      cases hw
    rw [FileTree.entryAt?_written hv, if_neg hne, hw]
  vacant := by
    intro l hl hnames
    have hne : l ≠ a.location := by
      rintro rfl
      exact hnames n (Nat.lt_succ_self n) hlast
    rw [FileTree.entryAt?_written hv, if_neg hne]
    exact h.vacant l hl fun k hk => hnames k (Nat.lt_succ_of_lt (Nat.lt_of_lt_of_le hk hn))

end Available

end ModuleHost
