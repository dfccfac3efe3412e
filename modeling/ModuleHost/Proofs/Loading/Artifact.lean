import ModuleHost.Loading.World
import ModuleHost.Proofs.FileTree.Entries
import ModuleHost.Proofs.FileTree.Places
import ModuleHost.Proofs.Text.Delimited

/-!
# Temporary files come and go

The name of a temporary file ends in a dot and its number, so it is the name of no module, and two
numbers make two names.  A temporary file is made under the first number that is free; `Creation`
lists what can come of it, and `createArtifact_eq_iff` says that nothing else can.  It is made only
where nothing is, so making one, writing it and removing it leaves the very list of entries there
was before.  All that stays behind is the counter.
-/

namespace ModuleHost.World

variable {w : World} {config : LoaderConfig} {n k number s attempts : Nat} {l : Location}
  {e : FileError} {r : Except FileError Artifact × World}

/-! ### Names of temporary files -/

theorem noSlash_dot_toString (n : Nat) : '/' ∉ ("." ++ toString n).toList := by
  intro h
  rw [String.toList_append, List.mem_append] at h
  rcases h with h | h
  · exact absurd h (by decide)
  · rw [Nat.toString_eq_repr, Nat.toList_repr] at h
    exact absurd (Text.isDigit_of_mem_toDigits h) (by decide)

theorem exists_artifactPath (w : World) (config : LoaderConfig) :
    ∃ start, ∀ n, w.artifactPath config n = start ++ ("." ++ toString n) := by
  have hname : ∀ n : Nat, config.tempPrefix ++ toString w.processNumber ++ "." ++ toString n
      = (config.tempPrefix ++ toString w.processNumber) ++ ("." ++ toString n) :=
    fun n => String.append_assoc
  have habsolute : ∀ n : Nat,
      Path.isAbsolute (config.tempPrefix ++ toString w.processNumber ++ "." ++ toString n)
        = Path.isAbsolute (config.tempPrefix ++ toString w.processNumber ++ ".") :=
    fun n => Path.isAbsolute_append (by simp) _
  simp only [artifactPath, Path.join, habsolute]
  split
  · exact ⟨_, hname⟩
  · split
    · refine ⟨w.tempDir config ++ (config.tempPrefix ++ toString w.processNumber), fun n => ?_⟩
      simp only [String.append_assoc]
    · refine ⟨w.tempDir config ++ "/" ++ (config.tempPrefix ++ toString w.processNumber),
        fun n => ?_⟩
      simp only [String.append_assoc]

theorem exists_lastName_artifactPath (w : World) (config : LoaderConfig) :
    ∃ start, ∀ n, FileTree.lastName (w.artifactPath config n) = start ++ ("." ++ toString n) := by
  obtain ⟨path, hpath⟩ := exists_artifactPath w config
  obtain ⟨before, start, hpieces⟩ := Path.exists_pieces_of_noSlash path
  refine ⟨start, fun n => ?_⟩
  rw [FileTree.lastName, hpath, hpieces _ (noSlash_dot_toString n), List.getLast?_concat,
    Option.getD_some]

theorem lastName_artifactPath_inj
    (h : FileTree.lastName (w.artifactPath config n)
      = FileTree.lastName (w.artifactPath config k)) : n = k := by
  obtain ⟨start, hname⟩ := exists_lastName_artifactPath w config
  rw [hname, hname] at h
  exact Text.number_unique h

/-- The name of a temporary file ends in a digit. -/
theorem getLast?_lastName_artifactPath (w : World) (config : LoaderConfig) (n : Nat) :
    ∃ c, (FileTree.lastName (w.artifactPath config n)).toList.getLast? = some c ∧ c.isDigit := by
  obtain ⟨start, hname⟩ := exists_lastName_artifactPath w config
  have hne : Nat.toDigits 10 n ≠ [] := Nat.toDigits_ne_nil
  have hdigits : (toString n).toList = Nat.toDigits 10 n := by
    rw [Nat.toString_eq_repr, Nat.toList_repr]
  refine ⟨(Nat.toDigits 10 n).getLast hne, ?_, ?_⟩
  · rw [hname, String.toList_append, String.toList_append, hdigits, List.getLast?_append,
      List.getLast?_append, List.getLast?_eq_some_getLast hne]
    rfl
  · exact Text.isDigit_of_mem_toDigits (List.getLast_mem hne)

theorem lastName_artifactPath_ne (stem : String) (kind : ModuleKind) :
    FileTree.lastName (w.artifactPath config n) ≠ stem ++ kind.suffix := by
  intro h
  obtain ⟨c, hlast, hdigit⟩ := getLast?_lastName_artifactPath w config n
  rw [h, String.toList_append, List.getLast?_append] at hlast
  cases kind
  all_goals
    cases hlast
    exact absurd hdigit (by decide)

theorem isName_lastName_artifactPath (w : World) (config : LoaderConfig) (n : Nat) :
    Path.isIdle (FileTree.lastName (w.artifactPath config n)) = false
      ∧ FileTree.lastName (w.artifactPath config n) ≠ ".." := by
  obtain ⟨c, hlast, hdigit⟩ := getLast?_lastName_artifactPath w config n
  apply Path.isIdle_of_mem (List.mem_of_getLast? hlast)
  rintro rfl
  exact absurd hdigit (by decide)

/-! ### What comes of making a temporary file -/

/-- The temporary file with this number would be at `l`, and nothing is there. -/
def FreeAt (w : World) (config : LoaderConfig) (number : Nat) (l : Location) : Prop :=
  ∃ directory, FileTree.InDirectory w.files w.cwd (w.artifactPath config number) directory
    ∧ l = directory ++ [FileTree.lastName (w.artifactPath config number)]
    ∧ w.files.entryAt? l = none

def Taken (w : World) (config : LoaderConfig) (number : Nat) : Prop :=
  ∃ directory, FileTree.InDirectory w.files w.cwd (w.artifactPath config number) directory
    ∧ ∃ e, w.files.entryAt? (directory ++ [FileTree.lastName (w.artifactPath config number)])
      = some e

/-- The temporary file with this number cannot be made, and not for what is there already. -/
def Refused (w : World) (config : LoaderConfig) (number : Nat) (e : FileError) : Prop :=
  w.files.newLocation w.cwd (w.artifactPath config number) = .error e ∧ e ≠ .alreadyExists

/-- What comes of making a temporary file: all numbers from the next one on that are passed over are
taken. -/
inductive Creation (w : World) (config : LoaderConfig) : Except FileError Artifact × World → Prop
  | made {s : Nat} {l : Location} (hfrom : w.nextArtifact ≤ s) (hto : s ≤ w.nextArtifact + 15)
      (htaken : ∀ k, w.nextArtifact ≤ k → k < s → w.Taken config k)
      (hfree : w.FreeAt config s l) :
      Creation w config (.ok { path := w.artifactPath config s, location := l },
        { w with files := w.files.insert l (.file []), nextArtifact := s + 1 })
  | refused {s : Nat} {e : FileError} (hfrom : w.nextArtifact ≤ s)
      (hto : s ≤ w.nextArtifact + 15)
      (htaken : ∀ k, w.nextArtifact ≤ k → k < s → w.Taken config k)
      (hrefused : w.Refused config s e) :
      Creation w config (.error e, { w with nextArtifact := s + 1 })
  | exhausted
      (htaken : ∀ k, w.nextArtifact ≤ k → k ≤ w.nextArtifact + 15 → w.Taken config k) :
      Creation w config (.error .alreadyExists, { w with nextArtifact := w.nextArtifact + 16 })

/-! ### One number -/

theorem createArtifactWithin_succ (config : LoaderConfig) (attempts : Nat) (w : World) :
    createArtifactWithin config (attempts + 1) w
      = match w.files.newLocation w.cwd (w.artifactPath config w.nextArtifact) with
        | .ok location =>
          (.ok { path := w.artifactPath config w.nextArtifact, location }, { w with
            files := w.files.insert location (.file [])
            nextArtifact := w.nextArtifact + 1 })
        | .error .alreadyExists =>
          createArtifactWithin config attempts { w with nextArtifact := w.nextArtifact + 1 }
        | .error e => (.error e, { w with nextArtifact := w.nextArtifact + 1 }) := by
  rfl

theorem FreeAt.vacant (h : w.FreeAt config number l) : w.files.entryAt? l = none := by
  obtain ⟨directory, -, -, hvacant⟩ := h
  exact hvacant

theorem FreeAt.getLast? (h : w.FreeAt config number l) :
    l.getLast? = some (FileTree.lastName (w.artifactPath config number)) := by
  obtain ⟨directory, -, rfl, -⟩ := h
  exact List.getLast?_concat

theorem FreeAt.newLocation (h : w.FreeAt config number l) :
    w.files.newLocation w.cwd (w.artifactPath config number) = .ok l := by
  obtain ⟨directory, hin, rfl, hfree⟩ := h
  rw [hin.newLocation, hfree]
  rfl

theorem Taken.newLocation (h : w.Taken config number) :
    w.files.newLocation w.cwd (w.artifactPath config number) = .error .alreadyExists := by
  obtain ⟨directory, hin, e, he⟩ := h
  rw [hin.newLocation, he]
  rfl

/-- A number is free or taken, or a file under it is refused. -/
theorem freeAt_or_taken_or_refused (w : World) (config : LoaderConfig) (number : Nat) :
    (∃ l, w.FreeAt config number l) ∨ w.Taken config number
      ∨ ∃ e, w.Refused config number e := by
  obtain ⟨hidle, hup⟩ := isName_lastName_artifactPath w config number
  cases hnew : w.files.newLocation w.cwd (w.artifactPath config number) with
  | ok l =>
    obtain ⟨directory, hin⟩ := FileTree.inDirectory_of_newLocation (Or.inl hnew) hidle hup
    rw [hin.newLocation] at hnew
    split at hnew
    · cases hnew
    · next hnone =>
      exact Or.inl ⟨_, directory, hin, rfl, Option.not_isSome_iff_eq_none.1 hnone⟩
  | error e =>
    by_cases he : e = .alreadyExists
    · rw [he] at hnew
      obtain ⟨directory, hin⟩ :=
        FileTree.inDirectory_of_newLocation (l := []) (Or.inr hnew) hidle hup
      rw [hin.newLocation] at hnew
      split at hnew
      · next hsome => exact Or.inr (Or.inl ⟨directory, hin, Option.isSome_iff_exists.1 hsome⟩)
      · cases hnew
    · exact Or.inr (Or.inr ⟨e, hnew, he⟩)

theorem FreeAt.createArtifactWithin_succ (h : w.FreeAt config w.nextArtifact l) :
    createArtifactWithin config (attempts + 1) w
      = (.ok { path := w.artifactPath config w.nextArtifact, location := l },
        { w with files := w.files.insert l (.file []), nextArtifact := w.nextArtifact + 1 }) := by
  rw [World.createArtifactWithin_succ, h.newLocation]

theorem Refused.createArtifactWithin_succ (h : w.Refused config w.nextArtifact e) :
    createArtifactWithin config (attempts + 1) w
      = (.error e, { w with nextArtifact := w.nextArtifact + 1 }) := by
  obtain ⟨hnew, hne⟩ := h
  rw [World.createArtifactWithin_succ, hnew]
  cases e <;> first | rfl | exact absurd rfl hne

/-! ### One number after the other -/

/-- Taken numbers are passed over. -/
theorem createArtifactWithin_passes (hfrom : w.nextArtifact ≤ s)
    (htaken : ∀ k, w.nextArtifact ≤ k → k < s → w.Taken config k) :
    createArtifactWithin config (s - w.nextArtifact + attempts) w
      = createArtifactWithin config attempts { w with nextArtifact := s } := by
  obtain ⟨passed, rfl⟩ := Nat.exists_eq_add_of_le hfrom
  rw [Nat.add_sub_cancel_left]
  clear hfrom
  induction passed generalizing w with
  | zero => rw [Nat.zero_add, Nat.add_zero]
  | succ passed ih =>
    have hnext : w.Taken config w.nextArtifact := htaken _ (Nat.le_refl _) (by omega)
    have hrest : ∀ k, w.nextArtifact + 1 ≤ k → k < w.nextArtifact + 1 + passed →
        { w with nextArtifact := w.nextArtifact + 1 }.Taken config k :=
      fun k hk hlt => htaken k (by omega) (by omega)
    rw [Nat.add_right_comm, World.createArtifactWithin_succ, hnext.newLocation]
    dsimp only
    rw [ih hrest, Nat.add_right_comm, Nat.add_assoc]

/-- The first of the numbers from `n` to `n + d` that is not taken, if they are not all taken. -/
theorem all_taken_or_first (w : World) (config : LoaderConfig) (n d : Nat) :
    (∀ k, n ≤ k → k < n + d → w.Taken config k)
      ∨ ∃ s, n ≤ s ∧ s < n + d ∧ (∀ k, n ≤ k → k < s → w.Taken config k)
        ∧ ((∃ l, w.FreeAt config s l) ∨ ∃ e, w.Refused config s e) := by
  induction d with
  | zero => exact Or.inl fun k hk hlt => by omega
  | succ d ih =>
    rcases ih with hall | ⟨s, hfrom, hto, hfirst⟩
    · rcases freeAt_or_taken_or_refused w config (n + d) with hfree | htaken | hrefused
      · exact Or.inr ⟨n + d, by omega, by omega, hall, Or.inl hfree⟩
      · refine Or.inl fun k hk hlt => ?_
        by_cases hlast : k = n + d
        · exact hlast ▸ htaken
        · exact hall k hk (by omega)
      · exact Or.inr ⟨n + d, by omega, by omega, hall, Or.inr hrefused⟩
    · exact Or.inr ⟨s, hfrom, by omega, hfirst⟩

theorem Creation.createArtifact_eq (h : Creation w config r) : w.createArtifact config = r := by
  have hattempts : ∀ s, w.nextArtifact ≤ s → s ≤ w.nextArtifact + 15 →
      artifactAttempts = s - w.nextArtifact + ((w.nextArtifact + 15 - s) + 1) := by
    intro s hfrom hto
    rw [artifactAttempts]
    omega
  rw [createArtifact]
  cases h with
  | @made s l hfrom hto htaken hfree =>
    have hfree' : { w with nextArtifact := s }.FreeAt config s l := hfree
    rw [hattempts s hfrom hto, createArtifactWithin_passes hfrom htaken,
      FreeAt.createArtifactWithin_succ hfree']
    rfl
  | @refused s e hfrom hto htaken hrefused =>
    have hrefused' : { w with nextArtifact := s }.Refused config s e := hrefused
    rw [hattempts s hfrom hto, createArtifactWithin_passes hfrom htaken,
      Refused.createArtifactWithin_succ hrefused']
  | exhausted htaken =>
    have hattempts : artifactAttempts = w.nextArtifact + 16 - w.nextArtifact + 0 := by
      rw [artifactAttempts]
      omega
    rw [hattempts, createArtifactWithin_passes (Nat.le_add_right _ _)
      fun k hk hlt => htaken k hk (by omega)]
    rfl

theorem creation_createArtifact (w : World) (config : LoaderConfig) :
    Creation w config (w.createArtifact config) := by
  have hcreation : ∃ r, Creation w config r := by
    rcases all_taken_or_first w config w.nextArtifact 16 with
      hall | ⟨s, hfrom, hto, htaken, ⟨l, hfree⟩ | ⟨e, hrefused⟩⟩
    · exact ⟨_, .exhausted fun k hk hlt => hall k hk (by omega)⟩
    · exact ⟨_, .made hfrom (by omega) htaken hfree⟩
    · exact ⟨_, .refused hfrom (by omega) htaken hrefused⟩
  obtain ⟨r, hr⟩ := hcreation
  rw [hr.createArtifact_eq]
  exact hr

theorem createArtifact_eq_iff : w.createArtifact config = r ↔ Creation w config r := by
  constructor
  · rintro rfl
    exact creation_createArtifact w config
  · exact Creation.createArtifact_eq

/-! ### What stays behind -/

/-- Making a temporary file advances the counter, and makes the file if it succeeds. -/
theorem createArtifact_cases (config : LoaderConfig) (w : World) :
    ∃ next, w.nextArtifact ≤ next ∧
      ((∃ e, w.createArtifact config = (.error e, { w with nextArtifact := next }))
        ∨ ∃ a : Artifact, w.files.entryAt? a.location = none
          ∧ w.createArtifact config
            = (.ok a, { w with
                files := w.files.insert a.location (.file [])
                nextArtifact := next })) := by
  generalize w.createArtifact config = r, creation_createArtifact w config = hc
  cases hc with
  | @made s l hfrom hto htaken hfree =>
    exact ⟨s + 1, Nat.le_succ_of_le hfrom, Or.inr ⟨_, hfree.vacant, rfl⟩⟩
  | @refused s e hfrom => exact ⟨s + 1, Nat.le_succ_of_le hfrom, Or.inl ⟨e, rfl⟩⟩
  | exhausted => exact ⟨_, Nat.le_add_right _ _, Or.inl ⟨_, rfl⟩⟩

/-- What is there stays when a temporary file is made. -/
theorem keeps_createArtifact (w : World) (config : LoaderConfig) :
    FileTree.Keeps w.files (w.createArtifact config).2.files := by
  intro l e he
  obtain ⟨next, -, ⟨e', heq⟩ | ⟨a, hfree, heq⟩⟩ := createArtifact_cases config w
  · rw [heq]
    exact he
  · have hne : l ≠ a.location := by
      rintro rfl
      rw [hfree] at he
      cases he
    rw [heq]
    dsimp only
    rw [FileTree.entryAt?_insert hfree, if_neg hne, he]

theorem removeArtifact_writeArtifact (w : World) (a : Artifact) (contents : List UInt8) :
    (w.writeArtifact a contents).removeArtifact a = w.removeArtifact a := by
  simp only [writeArtifact, removeArtifact, FileTree.erase_replace]

end ModuleHost.World
