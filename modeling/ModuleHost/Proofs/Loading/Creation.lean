import ModuleHost.Proofs.Loading.Artifact

/-!
# The numbers of temporary files

A temporary file is made under the first free number of sixteen (`createArtifact_eq_iff`), whatever
has been left in its directory; what is there stays.  A number is given out once.  So the temporary
files that a process has at the same time lie at different paths, in whatever order it makes and
removes them and whatever happens to the files meanwhile (`Process.run_apart`).
-/

namespace ModuleHost

/-! ### Numbers of paths -/

/-- The path and the location of the temporary file end in a dot and the number. -/
structure Artifact.Numbered (a : Artifact) (number : Nat) : Prop where
  path : ∃ start, a.path = start ++ ("." ++ toString number)
  location : ∃ directory start, a.location = directory ++ [start ++ ("." ++ toString number)]

namespace Artifact

variable {a b : Artifact} {n k : Nat}

theorem Numbered.path_ne (ha : a.Numbered n) (hb : b.Numbered k) (h : n ≠ k) :
    a.path ≠ b.path := by
  obtain ⟨start, hstart⟩ := ha.path
  obtain ⟨start', hstart'⟩ := hb.path
  rw [hstart, hstart']
  exact fun heq => h (Text.number_unique heq)

theorem Numbered.location_ne (ha : a.Numbered n) (hb : b.Numbered k) (h : n ≠ k) :
    a.location ≠ b.location := by
  obtain ⟨directory, start, hstart⟩ := ha.location
  obtain ⟨directory', start', hstart'⟩ := hb.location
  rw [hstart, hstart']
  intro heq
  exact h (Text.number_unique (List.singleton_inj.1 (List.append_inj' heq rfl).2))

end Artifact

theorem World.FreeAt.numbered {w : World} {config : LoaderConfig} {number : Nat} {l : Location}
    (h : w.FreeAt config number l) :
    Artifact.Numbered { path := w.artifactPath config number, location := l } number where
  path := by
    obtain ⟨start, hpath⟩ := World.exists_artifactPath w config
    exact ⟨start, hpath number⟩
  location := by
    obtain ⟨directory, -, rfl, -⟩ := h
    obtain ⟨start, hname⟩ := World.exists_lastName_artifactPath w config
    exact ⟨directory, start, by rw [hname]⟩

/-! ### A process and its temporary files -/

structure Process where
  world : World
  artifacts : List Artifact := []

namespace Process

inductive Event where
  /-- A temporary file is made, if that can be done. -/
  | create (config : LoaderConfig)
  /-- The temporary file at this place of the list is removed. -/
  | drop (index : Nat)
  /-- Files come and go, and the working directory and the variables change. -/
  | change (files : FileTree) (cwd : Location) (environment : Environment)

def receive (p : Process) : Except FileError Artifact × World → Process
  | (.ok a, world) => { world, artifacts := a :: p.artifacts }
  | (.error _, world) => { p with world }

def step (p : Process) : Event → Process
  | .create config => p.receive (p.world.createArtifact config)
  | .drop index =>
    match p.artifacts[index]? with
    | some a =>
      { world := p.world.removeArtifact a, artifacts := p.artifacts.eraseIdx index }
    | none => p
  | .change files cwd environment =>
    { p with world := { p.world with files, cwd, environment } }

def run (p : Process) (events : List Event) : Process := events.foldl step p

def Apart (artifacts : List Artifact) : Prop :=
  artifacts.Pairwise fun a b => a.path ≠ b.path ∧ a.location ≠ b.location

/-- The temporary files have numbers that have been given out, each another one. -/
structure Numbering (p : Process) : Prop where
  numbered : ∀ a ∈ p.artifacts, ∃ k < p.world.nextArtifact, a.Numbered k
  apart : Apart p.artifacts

variable {p : Process}

theorem numbering_nil (w : World) : Numbering { world := w } := ⟨nofun, .nil⟩

theorem Numbering.mono (h : p.Numbering) (w : World)
    (hcounter : p.world.nextArtifact ≤ w.nextArtifact) {artifacts : List Artifact}
    (hsublist : artifacts.Sublist p.artifacts) : Numbering { world := w, artifacts } where
  numbered a ha := by
    obtain ⟨k, hk, hnumbered⟩ := h.numbered a (hsublist.subset ha)
    exact ⟨k, Nat.lt_of_lt_of_le hk hcounter, hnumbered⟩
  apart := h.apart.sublist hsublist

/-- The next temporary file has a number that no other one has. -/
theorem Numbering.create (h : p.Numbering) (config : LoaderConfig) :
    (p.step (.create config)).Numbering := by
  have hcreation := World.creation_createArtifact p.world config
  rw [step]
  generalize p.world.createArtifact config = r at hcreation
  cases hcreation with
  | @made s l hfrom _ _ hfree =>
    refine ⟨?_, List.pairwise_cons.2 ⟨?_, h.apart⟩⟩
    · intro a ha
      rcases List.mem_cons.1 ha with rfl | ha
      · exact ⟨s, Nat.lt_succ_self s, hfree.numbered⟩
      · obtain ⟨k, hk, hnumbered⟩ := h.numbered a ha
        exact ⟨k, Nat.lt_succ_of_lt (Nat.lt_of_lt_of_le hk hfrom), hnumbered⟩
    · intro a ha
      obtain ⟨k, hk, hnumbered⟩ := h.numbered a ha
      have hne : s ≠ k := by omega
      exact ⟨hfree.numbered.path_ne hnumbered hne, hfree.numbered.location_ne hnumbered hne⟩
  | @refused s e hfrom =>
    exact h.mono _ (Nat.le_succ_of_le hfrom) (List.Sublist.refl _)
  | exhausted =>
    exact h.mono _ (Nat.le_add_right _ _) (List.Sublist.refl _)

theorem Numbering.step (h : p.Numbering) (event : Event) : (p.step event).Numbering := by
  cases event with
  | create config => exact h.create config
  | drop index =>
    rw [Process.step]
    cases p.artifacts[index]? with
    | none => exact h
    | some a => exact h.mono (p.world.removeArtifact a) (Nat.le_refl _) (List.eraseIdx_sublist _ _)
  | change files cwd environment =>
    exact h.mono { p.world with files, cwd, environment } (Nat.le_refl _) (List.Sublist.refl _)

theorem Numbering.run (h : p.Numbering) (events : List Event) : (p.run events).Numbering := by
  induction events generalizing p with
  | nil => exact h
  | cons event events ih => exact ih (h.step event)

/-- The temporary files that a process has at the same time lie at different paths. -/
theorem run_apart (w : World) (events : List Event) :
    Apart (run { world := w } events).artifacts :=
  ((numbering_nil w).run events).apart

end Process

/-! ### The first free number -/

/-- A temporary file is made under the first free number of sixteen, unless an earlier number is
refused; when all are taken none is made.  Nothing that is there is touched, and the temporary files
of a process lie at different paths. -/
theorem artifact_first_free (w : World) (config : LoaderConfig) :
    (∀ r, w.createArtifact config = r ↔ World.Creation w config r)
      ∧ (∀ l e, w.files.entryAt? l = some e →
        (w.createArtifact config).2.files.entryAt? l = some e)
      ∧ ∀ events, Process.Apart (Process.run { world := w } events).artifacts :=
  ⟨fun _ => World.createArtifact_eq_iff, World.keeps_createArtifact w config,
    Process.run_apart w⟩

namespace Leftovers

/-- A link that leads nowhere and a file have the names of the next two temporary files. -/
def world : World where
  files := { entries := [(["tmp"], .directory), (["tmp", "nlreq.1.5"], .link "gone"),
    (["tmp", "nlreq.1.6"], .file [1])] }
  nextArtifact := 5

theorem inDirectory {number : Nat} (h : number = 5 ∨ number = 6 ∨ number = 7) :
    FileTree.InDirectory world.files world.cwd (world.artifactPath {} number) ["tmp"] := by
  have hdirectory : FileTree.DirectoryAt world.files ["tmp"] :=
    ⟨fun _ hname => List.mem_singleton.1 hname ▸ by constructor <;> decide, by decide⟩
  have hname : Path.IsName ("nlreq.1." ++ toString number) := by
    rcases h with rfl | rfl | rfl <;> constructor <;> decide
  have hpath : world.artifactPath {} number
      = Location.path (["tmp"] ++ ["nlreq.1." ++ toString number]) := by
    rcases h with rfl | rfl | rfl <;> decide +kernel
  rw [hpath]
  refine FileTree.inDirectory_path hdirectory hname ?_ world.cwd
  rcases h with rfl | rfl | rfl <;> decide +kernel

theorem taken {number : Nat} (hfrom : 5 ≤ number) (hto : number < 7) :
    world.Taken {} number := by
  have hcases : number = 5 ∨ number = 6 := by omega
  rcases hcases with rfl | rfl
  · exact ⟨["tmp"], inDirectory (Or.inl rfl), .link "gone", by decide +kernel⟩
  · exact ⟨["tmp"], inDirectory (Or.inr (Or.inl rfl)), .file [1], by decide +kernel⟩

theorem freeAt : world.FreeAt {} 7 ["tmp", "nlreq.1.7"] :=
  ⟨["tmp"], inDirectory (Or.inr (Or.inr rfl)), by decide +kernel, by decide +kernel⟩

end Leftovers

theorem artifact_first_free_behind_leftovers :
    Leftovers.world.createArtifact {}
        = (.ok { path := "/tmp/nlreq.1.7", location := ["tmp", "nlreq.1.7"] },
          { Leftovers.world with
            files := Leftovers.world.files.insert ["tmp", "nlreq.1.7"] (.file [])
            nextArtifact := 8 })
      ∧ (Leftovers.world.createArtifact {}).2.files.entryAt? ["tmp", "nlreq.1.5"]
        = some (.link "gone")
      ∧ Process.Apart (Process.run { world := Leftovers.world }
        [.create {}, .create {}, .drop 1, .create {}]).artifacts := by
  obtain ⟨hcreation, hkeeps, hapart⟩ := artifact_first_free Leftovers.world {}
  refine ⟨(hcreation _).2 ?_, hkeeps _ _ (by decide), hapart _⟩
  have hpath : Leftovers.world.artifactPath {} 7 = "/tmp/nlreq.1.7" := by decide +kernel
  exact hpath ▸ .made (by decide) (by decide) (fun k hfrom hto => Leftovers.taken hfrom hto)
    Leftovers.freeAt

end ModuleHost
