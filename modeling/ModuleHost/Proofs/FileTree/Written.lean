import ModuleHost.Proofs.FileTree.Entries
import ModuleHost.Proofs.FileTree.Places

/-!
# Files that have been written

A file is written where its path leads, or where it could lead to a new entry.  In either case the
tree is the same but for the file (`WithFile`), so the path leads to the file from then on, and what
is read there is what was written (`contentsOf_writeFile`).
-/

namespace ModuleHost.FileTree

variable {t t' : FileTree} {links : Nat} {cwd here l l' : Location} {path piece : String}
  {pieces rest : List String} {place : Place} {contents : List UInt8} {e : Entry}

/-- A name that is free in a directory. -/
theorem entryAt?_of_follow_vacant {purpose : Purpose} {directory : Location} {name : String}
    (h : t.follow purpose links here pieces = .ok (.vacant directory name)) :
    t.entryAt? (directory ++ [name]) = none := by
  generalize hplace : Place.vacant directory name = place at h
  induction way_of_follow h with
  | nil heq => cases hplace.trans heq
  | idle hd hi _ ih =>
    rw [follow_idle hd hi] at h
    exact ih h
  | parent hd _ ih =>
    rw [follow_parent hd] at h
    exact ih h
  | link hd hn he _ ih =>
    rw [follow_link hd hn he] at h
    exact ih h
  | entry hd hn hl he _ ih =>
    rw [follow_entry hd hn hl he] at h
    exact ih h
  | vacant hd hn he heq =>
    cases hplace.trans heq
    exact he

/-- The tree `t'` is `t` with the file at `l`, where a file was or nothing. -/
structure WithFile (t : FileTree) (l : Location) (contents : List UInt8) (t' : FileTree) :
    Prop where
  file : t'.entryAt? l = some (.file contents)
  others : ∀ l', l' ≠ l → t'.entryAt? l' = t.entryAt? l'
  before : ∀ e, t.entryAt? l = some e → ∃ old, e = .file old

/-- Directories and links are as they were. -/
theorem WithFile.keeps (h : WithFile t l contents t') (he : t.entryAt? l' = some e)
    (hfile : ∀ old, e ≠ .file old) : t'.entryAt? l' = some e := by
  rw [h.others l', he]
  rintro rfl
  obtain ⟨old, rfl⟩ := h.before e he
  exact hfile old rfl

/-- What is no link has not become one. -/
theorem WithFile.exists_entry (h : WithFile t l contents t') (he : t.entryAt? l' = some e)
    (hlink : ∀ target, e ≠ .link target) :
    ∃ e', t'.entryAt? l' = some e' ∧ ∀ target, e' ≠ .link target := by
  by_cases hl : l' = l
  · exact ⟨_, hl ▸ h.file, by simp⟩
  · exact ⟨e, (h.others l' hl).trans he, hlink⟩

theorem LooksUp.read (h : LooksUp .write here piece rest) : LooksUp .read here piece rest :=
  ⟨h.notIdle, h.notParent, rfl, h.short⟩

/-- A path that leads to the file when it is to be written leads there when it is to be read. -/
theorem WithFile.follow (h : WithFile t l contents t')
    (hf : t.follow .write links here pieces = .ok place)
    (hplace : place = .present l ∨ ∃ directory name, place = .vacant directory name
      ∧ directory ++ [name] = l) :
    t'.follow .read links here pieces = .ok (.present l) := by
  induction way_of_follow hf with
  | nil heq =>
    subst heq
    rcases hplace with heq | ⟨_, _, heq, -⟩
    · rw [FileTree.follow, heq]
    · cases heq
  | idle hd hi _ ih =>
    rw [follow_idle hd hi] at hf
    rw [follow_idle (h.keeps hd (by simp)) hi, ih hf]
  | parent hd _ ih =>
    rw [follow_parent hd] at hf
    rw [follow_parent (h.keeps hd (by simp)), ih hf]
  | link hd hn he _ ih =>
    rw [follow_link hd hn he] at hf
    rw [follow_link (h.keeps hd (by simp)) hn.read (h.keeps he (by simp)), ih hf]
  | entry hd hn hl he _ ih =>
    rw [follow_entry hd hn hl he] at hf
    obtain ⟨e', he', hl'⟩ := h.exists_entry he hl
    rw [follow_entry (h.keeps hd (by simp)) hn.read hl' he', ih hf]
  | vacant hd hn he heq =>
    subst heq
    rcases hplace with heq | ⟨_, _, heq, rfl⟩
    · cases heq
    · cases heq
      rw [follow_entry (h.keeps hd (by simp)) hn.read (by simp) h.file, FileTree.follow]

/-- A path that leads to a place when it is to be written can be followed when it is to be read. -/
theorem place_read_eq_follow (h : t.place .write cwd path = .ok place) (t' : FileTree) :
    t'.place .read cwd path
      = t'.follow .read maxLinks (if Path.isAbsolute path then [] else cwd)
          (Path.pieces path) := by
  unfold FileTree.place at h ⊢
  split at h
  · cases h
  next hempty =>
  split at h
  · cases h
  next hnul =>
  split at h
  · cases h
  next hlong => rw [if_neg hempty, if_neg hnul, if_neg (by simpa using hlong)]

/-- What is at the place is a file that is overwritten, or a new file is made there. -/
theorem exists_withFile_of_writeFile (h : t.writeFile cwd path contents = .ok t') :
    ∃ place l, t.place .write cwd path = .ok place ∧ WithFile t l contents t'
      ∧ (place = .present l ∨ ∃ directory name, place = .vacant directory name
        ∧ directory ++ [name] = l) := by
  unfold writeFile at h
  cases hplace : t.place .write cwd path with
  | error e =>
    rw [hplace] at h
    cases h
  | ok place =>
    rw [hplace] at h
    cases place with
    | present l =>
      refine ⟨_, l, rfl, ?_, Or.inl rfl⟩
      cases he : t.entryAt? l with
      | none => simp [he, bind, Except.bind, throw, throwThe, MonadExceptOf.throw] at h
      | some e =>
        cases e with
        | directory => simp [he, bind, Except.bind, throw, throwThe, MonadExceptOf.throw] at h
        | link target => simp [he, bind, Except.bind, throw, throwThe, MonadExceptOf.throw] at h
        | file old =>
          simp only [he, bind, Except.bind, pure, Except.pure, Except.ok.injEq] at h
          subst h
          have hroot : l ≠ [] := by
            rintro rfl
            cases he
          refine ⟨?_, fun l' hl' => ?_, fun e' he' => ⟨old, Option.some.inj (he'.symm.trans he)⟩⟩
          · rw [entryAt?_replace he hroot, if_pos rfl]
          · rw [entryAt?_replace he hroot, if_neg hl']
    | vacant directory name =>
      simp only [bind, Except.bind, pure, Except.pure, Except.ok.injEq] at h
      subst h
      have hvacant := entryAt?_of_follow_vacant ((place_eq_follow hplace t).symm.trans hplace)
      refine ⟨_, _, rfl, ⟨?_, fun l' hl' => ?_, fun e' he' => ?_⟩, Or.inr ⟨_, _, rfl, rfl⟩⟩
      · rw [entryAt?_insert hvacant, if_pos rfl]
      · rw [entryAt?_insert hvacant, if_neg hl']
      · rw [hvacant] at he'
        cases he'

/-- What is read is what has been written. -/
theorem contentsOf_writeFile (h : t.writeFile cwd path contents = .ok t') :
    t'.contentsOf cwd path = .ok contents := by
  obtain ⟨place, l, hplace, hfile, hl⟩ := exists_withFile_of_writeFile h
  have hfollow : t.follow .write maxLinks (if Path.isAbsolute path then [] else cwd)
      (Path.pieces path) = .ok place := (place_eq_follow hplace t).symm.trans hplace
  have hread : t'.locationFor .read cwd path = .ok l := by
    rw [locationFor_eq_ok_iff, place_read_eq_follow hplace]
    exact hfile.follow hfollow hl
  have hopen : t'.openEntry cwd path = .ok (.file contents) :=
    openEntry_eq_ok_iff.2 ⟨l, hread, hfile.file⟩
  rw [contentsOf, hopen]
  rfl

end ModuleHost.FileTree
