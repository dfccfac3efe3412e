import ModuleHost.Proofs.FileTree.Places
import Mathlib.Data.List.Basic
import Mathlib.Data.List.Induction

/-!
# The entry to which a path leads

`t.Leads here pieces l` says that the pieces of a path lead from `here` to the entry at `l`,
whatever the number of links on the way and however long the names are.  There is at most one such
entry (`Leads.unique`), and following the path finds no other one (`leads_of_follow`).  A file that
has been found so is opened by the path of its location (`openEntry_of_canonicalize`).
-/

namespace ModuleHost.FileTree

variable {t : FileTree} {purpose : Purpose} {links : Nat} {cwd here l l' : Location}
  {path : String} {pieces : List String}

/-- The pieces lead from the entry at `here` to the entry at `l`. -/
inductive Leads (t : FileTree) (l : Location) : Location → List String → Prop
  | nil : Leads t l l []
  | idle {here : Location} {piece : String} {rest : List String}
      (hd : t.entryAt? here = some .directory) (hi : Path.isIdle piece = true)
      (h : Leads t l here rest) : Leads t l here (piece :: rest)
  | parent {here : Location} {rest : List String} (hd : t.entryAt? here = some .directory)
      (h : Leads t l here.dropLast rest) : Leads t l here (".." :: rest)
  | link {here : Location} {piece target : String} {rest : List String}
      (hd : t.entryAt? here = some .directory) (hi : Path.isIdle piece = false) (hp : piece ≠ "..")
      (he : t.entryAt? (here ++ [piece]) = some (.link target))
      (h : Leads t l (if Path.isAbsolute target then [] else here) (Path.pieces target ++ rest)) :
      Leads t l here (piece :: rest)
  | entry {here : Location} {piece : String} {rest : List String} {e : Entry}
      (hd : t.entryAt? here = some .directory) (hi : Path.isIdle piece = false) (hp : piece ≠ "..")
      (hl : ∀ target, e ≠ .link target) (he : t.entryAt? (here ++ [piece]) = some e)
      (h : Leads t l (here ++ [piece]) rest) : Leads t l here (piece :: rest)

/-- The path leads from the directory `cwd` to the entry at `l`. -/
def LeadsTo (t : FileTree) (cwd : Location) (path : String) (l : Location) : Prop :=
  path ≠ "" ∧ '\x00' ∉ path.toList
    ∧ t.Leads l (if Path.isAbsolute path then [] else cwd) (Path.pieces path)

/-- A path leads to one entry at most. -/
theorem Leads.unique (h : t.Leads l here pieces) (h' : t.Leads l' here pieces) : l' = l := by
  induction h with
  | nil =>
    cases h'
    rfl
  | idle hd hi h ih =>
    cases h' with
    | idle _ _ h' => exact ih h'
    | parent => cases hi
    | link _ hi' | entry _ hi' => rw [hi] at hi'; cases hi'
  | parent hd h ih =>
    cases h' with
    | idle _ hi' => cases hi'
    | parent _ h' => exact ih h'
    | link _ _ hp | entry _ _ hp => exact absurd rfl hp
  | link hd hi hp he h ih =>
    cases h' with
    | idle _ hi' => rw [hi] at hi'; cases hi'
    | parent => exact absurd rfl hp
    | link _ _ _ he' h' =>
      rw [he] at he'
      cases he'
      exact ih h'
    | entry _ _ _ hl he' =>
      rw [he] at he'
      cases he'
      exact absurd rfl (hl _)
  | entry hd hi hp hl he h ih =>
    cases h' with
    | idle _ hi' => rw [hi] at hi'; cases hi'
    | parent => exact absurd rfl hp
    | link _ _ _ he' =>
      rw [he] at he'
      cases he'
      exact absurd rfl (hl _)
    | entry _ _ _ _ _ h' => exact ih h'

theorem LeadsTo.unique (h : t.LeadsTo cwd path l) (h' : t.LeadsTo cwd path l') : l' = l :=
  h.2.2.unique h'.2.2

/-- Following a path finds the entry to which it leads. -/
theorem leads_of_follow (h : t.follow purpose links here pieces = .ok (.present l)) :
    t.Leads l here pieces := by
  generalize hplace : Place.present l = place at h
  induction way_of_follow h with
  | nil heq =>
    obtain rfl := Place.present.inj (hplace.trans heq)
    exact .nil
  | idle hd hi _ ih =>
    rw [follow_idle hd hi] at h
    exact .idle hd hi (ih h)
  | parent hd _ ih =>
    rw [follow_parent hd] at h
    exact .parent hd (ih h)
  | link hd hn he _ ih =>
    rw [follow_link hd hn he] at h
    exact .link hd hn.notIdle hn.notParent he (ih h)
  | entry hd hn hl he _ ih =>
    rw [follow_entry hd hn hl he] at h
    exact .entry hd hn.notIdle hn.notParent hl he (ih h)
  | vacant hd hn he heq => cases hplace.trans heq

theorem leadsTo_of_canonicalize (h : t.canonicalize cwd path = .ok l) : t.LeadsTo cwd path l := by
  rw [canonicalize_eq_ok_iff] at h
  have hfollow := place_eq_follow h t
  rw [h] at hfollow
  unfold place at h
  split at h
  · cases h
  next hempty =>
  split at h
  · cases h
  next hnul =>
  refine ⟨fun hpath => hempty (by rw [hpath]; rfl), ?_, leads_of_follow hfollow.symm⟩
  rwa [List.contains_iff_mem] at hnul

/-! ### Paths of files -/

/-- Names are names, and every entry is in a directory. -/
def WellFormed (t : FileTree) : Prop :=
  ∀ l e, t.entryAt? l = some e → ∀ name directory, l = directory ++ [name] →
    Path.IsName name ∧ t.entryAt? directory = some .directory

theorem wellFormed_of_entries (h : ∀ entry ∈ t.entries, ∀ name directory,
    entry.1 = directory ++ [name] →
      Path.IsName name ∧ t.entryAt? directory = some .directory) : t.WellFormed := by
  intro l e he name directory hl
  rw [entryAt?, if_neg (by rw [hl]; simp)] at he
  obtain ⟨before, after, hentries, -⟩ := List.lookup_eq_some_iff.1 he
  exact h (l, e) (hentries ▸ List.mem_append_right _ List.mem_cons_self) name directory hl

theorem WellFormed.directoryAt (ht : t.WellFormed) (h : t.entryAt? l = some .directory) :
    DirectoryAt t l := by
  induction l using List.reverseRecOn with
  | nil => exact directoryAt_root t
  | append_singleton directory name ih =>
    obtain ⟨hname, hdirectory⟩ := ht _ _ h name directory rfl
    obtain ⟨hnames, hdirectories⟩ := ih hdirectory
    constructor
    · intro other ho
      rcases List.mem_append.1 ho with ho | ho
      · exact hnames other ho
      · exact List.mem_singleton.1 ho ▸ hname
    · intro n hn
      rcases Nat.lt_or_ge directory.length n with hlt | hle
      · rw [List.take_of_length_le (by rw [List.length_append, List.length_singleton]; omega)]
        exact h
      · rw [List.take_append_of_le_length hle]
        exact hdirectories n hle

/-- What is not a directory has a path that can be opened. -/
def Short (t : FileTree) (l : Location) : Prop :=
  t.entryAt? l = some .directory ∨ l.path.utf8ByteSize < pathByteLimit

/-- An entry that can be located has a short path, if it is not a directory. -/
theorem short_of_follow (ht : t.WellFormed) (hs : t.Short here)
    (h : t.follow .locate links here pieces = .ok (.present l)) : t.Short l := by
  generalize hplace : Place.present l = place at h
  induction way_of_follow h with
  | nil heq =>
    obtain rfl := Place.present.inj (hplace.trans heq)
    exact hs
  | idle hd hi _ ih =>
    rw [follow_idle hd hi] at h
    exact ih hs h
  | @parent links here rest hd _ ih =>
    rw [follow_parent hd] at h
    refine ih (Or.inl ?_) h
    rcases List.eq_nil_or_concat' here with rfl | ⟨directory, name, rfl⟩
    · exact hd
    · rw [List.dropLast_concat]
      exact (ht _ _ hd name directory rfl).2
  | @link links here piece target rest hd hn he _ ih =>
    rw [follow_link hd hn he] at h
    refine ih (Or.inl ?_) h
    split
    · rfl
    · exact hd
  | @entry links here piece rest e hd hn hl he _ ih =>
    rw [follow_entry hd hn hl he] at h
    refine ih (Or.inr ?_) h
    have hshort := hn.short
    rw [nameTooLong, Bool.or_eq_false_iff] at hshort
    simpa using hshort.2
  | vacant hd hn he heq => cases hplace.trans heq

theorem short_of_canonicalize (ht : t.WellFormed) (h : t.canonicalize cwd path = .ok l) :
    t.Short l := by
  rw [canonicalize_eq_ok_iff] at h
  have hfollow := (place_eq_follow h t).symm.trans h
  -- a path has pieces, so it is followed from a directory
  cases hp : Path.pieces path with
  | nil => exact absurd (List.map_eq_nil_iff.1 hp) (List.splitOn_ne_nil '/' path.toList)
  | cons piece rest =>
    refine short_of_follow ht (Or.inl ?_) hfollow
    by_contra hd
    rw [hp, follow, if_pos hd] at hfollow
    cases hfollow

/-- A file that has been located is opened by the path of its location. -/
theorem openEntry_of_canonicalize (ht : t.WellFormed) (h : t.canonicalize cwd path = .ok l)
    {contents : List UInt8} (he : t.entryAt? l = some (.file contents)) (cwd' : Location) :
    t.openEntry cwd' l.path = .ok (.file contents) := by
  have hshort : l.path.utf8ByteSize < pathByteLimit := by
    refine (short_of_canonicalize ht h).resolve_left fun hd => ?_
    rw [he] at hd
    cases hd
  rcases List.eq_nil_or_concat' l with rfl | ⟨directory, name, rfl⟩
  · cases he
  · obtain ⟨hname, hdirectory⟩ := ht _ _ he name directory rfl
    exact openEntry_path (ht.directoryAt hdirectory) hname he nofun hshort cwd'

end ModuleHost.FileTree
