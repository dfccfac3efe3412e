import ModuleHost.Loading.Resolution
import ModuleHost.Proofs.FileTree.Overlaid
import ModuleHost.Proofs.Loading.Availability

/-!
# Temporary files in the way

`Carries config w₀ as w` says that the world `w` is `w₀` with the temporary files `as` on top.  They
are in nobody's way: a name that is not resolved to one of them is resolved to what it stands for in
`w₀` (`Carries.resolve`), a path that leads to none of them is opened as in `w₀`, and the next
temporary file gets the number that it would get in `w₀` (`Carries.createArtifact`).
-/

namespace ModuleHost.World

/-- Whether the path is the absolute path of the temporary file or leads to it. -/
def Names (w : World) (path : String) (a : Artifact) : Prop :=
  path = a.location.path ∨ w.files.locationFor .read w.cwd path = .ok a.location

/-- The world `w` is `w₀` with these temporary files, the one made last in front, and numbers given
out since. -/
structure Carries (config : LoaderConfig) (w₀ : World) (artifacts : List Artifact) (w : World) :
    Prop where
  cwd : w.cwd = w₀.cwd
  environment : w.environment = w₀.environment
  processNumber : w.processNumber = w₀.processNumber
  counter : w₀.nextArtifact ≤ w.nextArtifact
  files : w₀.files.Overlaid (artifacts.map (·.location)) w.files
  names : ∀ a ∈ artifacts, ∃ n < w.nextArtifact,
    a.location.getLast? = some (FileTree.lastName (w₀.artifactPath config n))

namespace Carries

variable {config : LoaderConfig} {w w₀ w' : World} {artifacts : List Artifact} {a : Artifact}
  {searchPath : SearchPath} {name path : String} {n : Nat} {l : Location}

theorem refl (config : LoaderConfig) (w : World) : Carries config w [] w :=
  ⟨rfl, rfl, rfl, Nat.le_refl _, .bare, nofun⟩

theorem available (h : Carries config w₀ artifacts w) : Available config w₀ w where
  cwd := h.cwd
  environment := h.environment
  processNumber := h.processNumber
  counter := h.counter
  keeps := h.files.keeps
  vacant l hl hnames := by
    rw [h.files.entryAt?_of_notMem, hl]
    intro hmem
    obtain ⟨a, ha, rfl⟩ := List.mem_map.1 hmem
    obtain ⟨n, hn, hlast⟩ := h.names a ha
    exact hnames n hn hlast

/-- Numbers are given out. -/
theorem advance (h : Carries config w₀ artifacts w) (hn : w.nextArtifact ≤ n) :
    Carries config w₀ artifacts { w with nextArtifact := n } where
  cwd := h.cwd
  environment := h.environment
  processNumber := h.processNumber
  counter := Nat.le_trans h.counter hn
  files := h.files
  names a ha := by
    obtain ⟨k, hk, hlast⟩ := h.names a ha
    exact ⟨k, Nat.lt_of_lt_of_le hk hn, hlast⟩

/-! ### Modules -/

theorem candidateFile?_eq_some_iff {candidate : String} {l : Location} :
    w.candidateFile? candidate = some l
      ↔ w.files.canonicalize w.cwd candidate = .ok l
        ∧ ∃ contents, w.files.entryAt? l = some (.file contents) := by
  unfold candidateFile?
  cases w.files.canonicalize w.cwd candidate with
  | error e =>
    constructor
    · intro h
      cases h
    · rintro ⟨h, -⟩
      cases h
  | ok l' =>
    dsimp only
    constructor
    · intro h
      split at h
      · next contents he =>
        cases h
        exact ⟨rfl, contents, he⟩
      · cases h
    · rintro ⟨h, contents, he⟩
      cases h
      rw [he]

/-- The first candidate that leads to a file is the same one without the temporary files, unless it
leads to one of them. -/
theorem findSome?_candidateFile? (h : Carries config w₀ artifacts w) {candidates : List String}
    (hl : ∀ a ∈ artifacts, candidates.findSome? w.candidateFile? ≠ some a.location) :
    candidates.findSome? w.candidateFile? = candidates.findSome? w₀.candidateFile? := by
  induction candidates with
  | nil => rfl
  | cons candidate candidates ih =>
    rw [List.findSome?_cons] at hl ⊢
    rw [List.findSome?_cons]
    cases hc : w.candidateFile? candidate with
    | some l =>
      rw [hc] at hl
      obtain ⟨hcanonicalize, contents, he⟩ := candidateFile?_eq_some_iff.1 hc
      have hnot : l ∉ artifacts.map (·.location) := by
        intro hmem
        obtain ⟨a, ha, rfl⟩ := List.mem_map.1 hmem
        exact hl a ha rfl
      have hbase : w₀.candidateFile? candidate = some l := by
        rw [candidateFile?_eq_some_iff]
        refine ⟨h.files.locationFor ?_ hnot, contents, ?_⟩
        · rw [← h.cwd]
          exact hcanonicalize
        · rw [← h.files.entryAt?_of_notMem hnot, he]
      rw [hbase]
    | none =>
      rw [hc] at hl
      have hbase : w₀.candidateFile? candidate = none := by
        cases hb : w₀.candidateFile? candidate with
        | none => rfl
        | some l =>
          obtain ⟨hcanonicalize, contents, he⟩ := candidateFile?_eq_some_iff.1 hb
          rw [← h.cwd] at hcanonicalize
          rw [candidateFile?_eq_some_iff.2 ⟨FileTree.canonicalize_mono h.files.keeps hcanonicalize,
            contents, h.files.keeps _ _ he⟩] at hc
          cases hc
      rw [hbase]
      exact ih hl

/-- Opening a path that names none of the temporary files gives the same entry without them. -/
theorem openEntry (h : Carries config w₀ artifacts w) (hn : ∀ a ∈ artifacts, ¬ w.Names path a)
    (e : Entry) :
    w.files.openEntry w.cwd path = .ok e ↔ w₀.files.openEntry w₀.cwd path = .ok e := by
  rw [h.files.openEntry, h.cwd]
  intro l hmem hf
  obtain ⟨a, ha, rfl⟩ := List.mem_map.1 hmem
  exact hn a ha (Or.inr hf)

theorem isFile_iff : w.files.isFile w.cwd path = true
    ↔ ∃ contents, w.files.openEntry w.cwd path = .ok (.file contents) := by
  unfold FileTree.isFile
  split
  · next contents he => exact ⟨fun _ => ⟨contents, he⟩, fun _ => rfl⟩
  · next hne => exact ⟨nofun, fun ⟨contents, he⟩ => absurd he (hne contents)⟩

/-- A name that stands for none of the temporary files stands for the same module without them. -/
theorem resolve (h : Carries config w₀ artifacts w)
    (hn : ∀ path, w.resolve searchPath name = .ok path → ∀ a ∈ artifacts, ¬ w.Names path a) :
    w.resolve searchPath name = w₀.resolve searchPath name := by
  unfold World.resolve at hn ⊢
  by_cases habsolute : Path.isAbsolute name = true
  · rw [if_pos habsolute] at hn ⊢
    have hfile : w.files.isFile w.cwd name = w₀.files.isFile w₀.cwd name := by
      rw [Bool.eq_iff_iff, isFile_iff, isFile_iff]
      constructor
      · rintro ⟨contents, hopen⟩
        have hnot := hn name (if_pos (isFile_iff.2 ⟨contents, hopen⟩))
        exact ⟨contents, (h.openEntry hnot _).1 hopen⟩
      · rintro ⟨contents, hopen⟩
        rw [h.cwd]
        exact ⟨contents, FileTree.openEntry_mono h.files.keeps hopen⟩
    rw [if_pos habsolute, hfile]
  · rw [if_neg habsolute] at hn ⊢
    rw [if_neg habsolute, h.findSome?_candidateFile?]
    intro a ha hl
    rw [hl] at hn
    exact hn _ rfl a ha (Or.inl rfl)

/-! ### Further temporary files -/

/-- No temporary file has a number that has not been given out. -/
theorem notMem_locations (h : Carries config w₀ artifacts w) (hn : w.nextArtifact ≤ n)
    (hlast : l.getLast? = some (FileTree.lastName (w₀.artifactPath config n))) :
    l ∉ artifacts.map (·.location) := by
  intro hmem
  obtain ⟨a, ha, rfl⟩ := List.mem_map.1 hmem
  obtain ⟨k, hk, hk'⟩ := h.names a ha
  have hkn := World.lastName_artifactPath_inj (Option.some.inj (hk'.symm.trans hlast))
  omega

/-- A number that has not been given out is free if it is without the temporary files. -/
theorem freeAt_iff (h : Carries config w₀ artifacts w) (hn : w.nextArtifact ≤ n) :
    w.FreeAt config n l ↔ w₀.FreeAt config n l := by
  refine ⟨fun hf => ?_, h.available.freeAt hn⟩
  have hlast := hf.getLast?
  obtain ⟨directory, hin, hl, hvacant⟩ := hf
  rw [h.available.artifactPath, h.cwd] at hin
  rw [h.available.artifactPath] at hl hlast
  rw [h.files.entryAt?_of_notMem (h.notMem_locations hn hlast)] at hvacant
  exact ⟨directory, h.files.inDirectory hin, hl, hvacant⟩

theorem taken_iff (h : Carries config w₀ artifacts w) (hn : w.nextArtifact ≤ n) :
    w.Taken config n ↔ w₀.Taken config n := by
  refine ⟨?_, h.available.taken⟩
  rintro ⟨directory, hin, e, he⟩
  rw [h.available.artifactPath, h.cwd] at hin
  rw [h.available.artifactPath,
    h.files.entryAt?_of_notMem (h.notMem_locations hn List.getLast?_concat)] at he
  exact ⟨directory, h.files.inDirectory hin, e, he⟩

/-- A temporary file gets the number that it would get without the others. -/
theorem createArtifact (h : Carries config w₀ artifacts w)
    (hc : w.createArtifact config = (.ok a, w')) :
    ∃ n, w.nextArtifact ≤ n
      ∧ a.location.getLast? = some (FileTree.lastName (w₀.artifactPath config n))
      ∧ w.files.entryAt? a.location = none
      ∧ w' = { w with files := w.files.insert a.location (.file []), nextArtifact := n + 1 }
      ∧ World.createArtifact { w₀ with nextArtifact := w.nextArtifact } config
        = (.ok a, { w₀ with
            files := w₀.files.insert a.location (.file [])
            nextArtifact := n + 1 }) := by
  rw [createArtifact_eq_iff] at hc
  cases hc with
  | @made n l hfrom hto htaken hfree =>
    have hfree₀ : w₀.FreeAt config n l := (h.freeAt_iff hfrom).1 hfree
    refine ⟨n, hfrom, hfree₀.getLast?, hfree.vacant, rfl, Creation.createArtifact_eq ?_⟩
    rw [h.available.artifactPath]
    have htaken₀ : ∀ k, w.nextArtifact ≤ k → k < n → w₀.Taken config k :=
      fun k hk hlt => (h.taken_iff hk).1 (htaken k hk hlt)
    exact .made (w := { w₀ with nextArtifact := w.nextArtifact }) hfrom hto htaken₀ hfree₀

/-- One more temporary file is made. -/
theorem made (h : Carries config w₀ artifacts w) (hc : w.createArtifact config = (.ok a, w')) :
    Carries config w₀ (a :: artifacts) w' := by
  obtain ⟨n, hn, hlast, hv, rfl, -⟩ := h.createArtifact hc
  refine ⟨h.cwd, h.environment, h.processNumber, ?_, .made h.files hv [], ?_⟩
  · exact Nat.le_trans h.counter (Nat.le_succ_of_le hn)
  · intro b hb
    rcases List.mem_cons.1 hb with rfl | hb
    · exact ⟨n, Nat.lt_succ_self n, hlast⟩
    · obtain ⟨k, hk, hlast⟩ := h.names b hb
      exact ⟨k, Nat.lt_succ_of_lt (Nat.lt_of_lt_of_le hk hn), hlast⟩

theorem missed (h : Carries config w₀ artifacts w) {e : FileError}
    (hc : w.createArtifact config = (.error e, w')) : Carries config w₀ artifacts w' := by
  obtain ⟨next, hnext, ⟨e', he⟩ | ⟨a, -, ha⟩⟩ := World.createArtifact_cases config w
  · rw [he] at hc
    cases hc
    exact h.advance hnext
  · rw [ha] at hc
    cases hc

/-- The temporary file made last is written. -/
theorem written (h : Carries config w₀ (a :: artifacts) w) (contents : List UInt8) :
    Carries config w₀ (a :: artifacts) (w.writeArtifact a contents) :=
  ⟨h.cwd, h.environment, h.processNumber, h.counter, h.files.replace contents, h.names⟩

/-- The temporary file made last is removed. -/
theorem removed (h : Carries config w₀ (a :: artifacts) w) :
    Carries config w₀ artifacts (w.removeArtifact a) :=
  ⟨h.cwd, h.environment, h.processNumber, h.counter, h.files.erase,
    fun b hb => h.names b (List.mem_cons_of_mem a hb)⟩

end Carries

end ModuleHost.World
