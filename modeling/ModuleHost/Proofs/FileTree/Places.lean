import ModuleHost.Proofs.FileTree.Following

/-!
# Files in a directory

What is found in the directory to which a path leads, when a name is put behind the path with a
slash; and where a new file is made.
-/

namespace ModuleHost.FileTree

variable {t t' : FileTree} {cwd l : Location} {dir name path : String}

def lastName (path : String) : String := (Path.pieces path).getLast?.getD ""

/-- A path that leads somewhere in one tree is followed in all of them. -/
theorem place_eq_follow {purpose : Purpose} {p : Place} (h : t.place purpose cwd path = .ok p)
    (t' : FileTree) :
    t'.place purpose cwd path
      = t'.follow purpose maxLinks (if Path.isAbsolute path then [] else cwd)
          (Path.pieces path) := by
  unfold place at h ⊢
  split at h
  · cases h
  next hempty =>
  split at h
  · cases h
  next hnul =>
  split at h
  · cases h
  next hlong =>
  rw [if_neg hempty, if_neg hnul, if_neg hlong]

theorem locationFor_eq_ok_iff {purpose : Purpose} :
    t.locationFor purpose cwd path = .ok l ↔ t.place purpose cwd path = .ok (.present l) := by
  rw [locationFor]
  cases t.place purpose cwd path with
  | error e =>
    constructor
    · intro h
      cases h
    · intro h
      cases h
  | ok p =>
    cases p with
    | present l' =>
      constructor
      · intro h
        cases h
        rfl
      · intro h
        cases h
        rfl
    | vacant directory name =>
      constructor
      · intro h
        cases h
      · intro h
        cases h

theorem canonicalize_eq_ok_iff :
    t.canonicalize cwd path = .ok l ↔ t.place .locate cwd path = .ok (.present l) :=
  locationFor_eq_ok_iff

theorem locationFor_mono {purpose : Purpose} (hk : Keeps t t')
    (h : t.locationFor purpose cwd path = .ok l) : t'.locationFor purpose cwd path = .ok l := by
  rw [locationFor_eq_ok_iff] at h ⊢
  rw [place_eq_follow h t']
  rw [place_eq_follow h t] at h
  exact follow_mono hk h (by intro _ _ hp; cases hp)

theorem canonicalize_mono (hk : Keeps t t') (h : t.canonicalize cwd path = .ok l) :
    t'.canonicalize cwd path = .ok l := locationFor_mono hk h

theorem openEntry_eq_ok_iff {e : Entry} :
    t.openEntry cwd path = .ok e
      ↔ ∃ l, t.locationFor .read cwd path = .ok l ∧ t.entryAt? l = some e := by
  rw [openEntry]
  cases t.locationFor .read cwd path with
  | error e' =>
    constructor
    · intro h
      cases h
    · rintro ⟨l, h, -⟩
      cases h
  | ok l =>
    simp only [bind, Except.bind]
    cases he : t.entryAt? l with
    | none =>
      constructor
      · intro h
        cases h
      · rintro ⟨l', h, he'⟩
        cases h
        rw [he] at he'
        cases he'
    | some e' =>
      constructor
      · intro h
        cases h
        exact ⟨l, rfl, he⟩
      · rintro ⟨l', h, he'⟩
        cases h
        rw [he] at he'
        cases he'
        rfl

/-- A path that can be opened is not too long. -/
theorem utf8ByteSize_lt_of_openEntry {e : Entry} (h : t.openEntry cwd path = .ok e) :
    path.utf8ByteSize < pathByteLimit := by
  obtain ⟨l, hl, -⟩ := openEntry_eq_ok_iff.1 h
  rw [locationFor_eq_ok_iff] at hl
  unfold place at hl
  split at hl
  · cases hl
  split at hl
  · cases hl
  split at hl
  · cases hl
  next hshort =>
  simpa using hshort

theorem openEntry_mono {e : Entry} (hk : Keeps t t') (h : t.openEntry cwd path = .ok e) :
    t'.openEntry cwd path = .ok e := by
  obtain ⟨l, hl, he⟩ := openEntry_eq_ok_iff.1 h
  exact openEntry_eq_ok_iff.2 ⟨l, locationFor_mono hk hl, hk l e he⟩

/-- A name behind the path of a directory is followed from that directory. -/
theorem place_in (hdir : t.canonicalize cwd dir = .ok l) (hslash : '/' ∉ name.toList)
    (hnul : '\x00' ∉ name.toList) :
    ∃ links, t.place .locate cwd (dir ++ "/" ++ name) = t.follow .locate links l [name] := by
  have hplace := canonicalize_eq_ok_iff.1 hdir
  unfold place at hplace ⊢
  by_cases hempty : dir.isEmpty = true
  · rw [if_pos hempty] at hplace
    cases hplace
  by_cases hdirnul : dir.toList.contains '\x00' = true
  · rw [if_neg hempty, if_pos hdirnul] at hplace
    cases hplace
  rw [if_neg hempty, if_neg hdirnul, if_neg (by simp)] at hplace
  have hne : dir ≠ "" := by
    rintro rfl
    exact hempty rfl
  have hempty' : ¬ (dir ++ "/" ++ name).isEmpty = true := by simp
  have hnul' : ¬ (dir ++ "/" ++ name).toList.contains '\x00' = true := by
    rw [List.contains_iff_mem, String.toList_append, String.toList_append, List.mem_append,
      List.mem_append]
    rintro ((hm | hm) | hm)
    · exact hdirnul (List.contains_iff_mem.2 hm)
    · exact absurd hm (by decide)
    · exact hnul hm
  have habsolute : Path.isAbsolute (dir ++ "/" ++ name) = Path.isAbsolute dir := by
    rw [String.append_assoc, Path.isAbsolute_append hne]
  obtain ⟨links, hlinks⟩ := follow_append (by decide) hplace
  refine ⟨links, ?_⟩
  rw [if_neg hempty', if_neg hnul', if_neg (by simp), habsolute, Path.pieces_append_slash,
    Path.pieces_of_noSlash hslash]
  exact hlinks [name]

/-- A file in the directory is found there. -/
theorem canonicalize_file (hdir : t.canonicalize cwd dir = .ok l)
    (hl : t.entryAt? l = some .directory) (hn : Path.IsName name)
    (hs : (Location.path (l ++ [name])).utf8ByteSize < pathByteLimit) {contents : List UInt8}
    (he : t.entryAt? (l ++ [name]) = some (.file contents)) :
    t.canonicalize cwd (dir ++ "/" ++ name) = .ok (l ++ [name]) := by
  obtain ⟨links, hplace⟩ := place_in hdir hn.noSlash hn.noNul
  have hlooks : LooksUp .locate l name [] := by
    refine ⟨hn.notIdle, hn.notParent, rfl, ?_⟩
    rw [nameTooLong, decide_eq_false (Nat.not_lt.2 hn.short), decide_eq_false (Nat.not_le.2 hs),
      Bool.and_false, Bool.or_false]
  rw [canonicalize_eq_ok_iff, hplace, follow_entry hl hlooks (by simp) he, follow]

/-- What is not in the directory is not found there. -/
theorem canonicalize_vacant (hdir : t.canonicalize cwd dir = .ok l)
    (hl : t.entryAt? l = some .directory) (hidle : Path.isIdle name = false) (hup : name ≠ "..")
    (hslash : '/' ∉ name.toList) (hnul : '\x00' ∉ name.toList)
    (he : t.entryAt? (l ++ [name]) = none) (l' : Location) :
    t.canonicalize cwd (dir ++ "/" ++ name) ≠ .ok l' := by
  obtain ⟨links, hplace⟩ := place_in hdir hslash hnul
  rw [ne_eq, canonicalize_eq_ok_iff, hplace]
  intro h
  cases hs : nameTooLong .locate l name with
  | true =>
    rw [follow, if_neg (not_not_intro hl), if_neg (by rw [hidle]; decide), if_neg hup,
      if_neg (by decide), if_pos hs] at h
    cases h
  | false =>
    rw [follow_name hl ⟨hidle, hup, rfl, hs⟩, he] at h
    cases h

/-! ### New files -/

/-- The path leads to the directory and names something that can be in it. -/
structure InDirectory (t : FileTree) (cwd : Location) (path : String) (directory : Location) :
    Prop where
  notEmpty : path.isEmpty = false
  noNul : path.toList.contains '\x00' = false
  short : path.utf8ByteSize < pathByteLimit
  leads : t.follow .read maxLinks (if Path.isAbsolute path then [] else cwd)
    (Path.pieces path).dropLast = .ok (.present directory)
  isDirectory : t.entryAt? directory = some .directory
  nameShort : nameTooLong .read directory (lastName path) = false
  notIdle : Path.isIdle (lastName path) = false
  notParent : lastName path ≠ ".."

theorem InDirectory.mono {directory : Location} (hk : Keeps t t')
    (h : InDirectory t cwd path directory) : InDirectory t' cwd path directory where
  notEmpty := h.notEmpty
  noNul := h.noNul
  short := h.short
  leads := follow_mono hk h.leads (by intro _ _ hp; cases hp)
  isDirectory := hk _ _ h.isDirectory
  nameShort := h.nameShort
  notIdle := h.notIdle
  notParent := h.notParent

/-- A name behind a directory. -/
theorem inDirectory_path (hd : DirectoryAt t l) (hn : Path.IsName name)
    (hs : (Location.path (l ++ [name])).utf8ByteSize < pathByteLimit) (cwd : Location) :
    InDirectory t cwd (Location.path (l ++ [name])) l := by
  have hnames : ∀ other ∈ l ++ [name], Path.IsName other := by
    intro other ho
    rcases List.mem_append.1 ho with ho | ho
    · exact hd.names other ho
    · exact List.mem_singleton.1 ho ▸ hn
  have hpieces : Path.pieces (Location.path (l ++ [name])) = ("" :: l) ++ [name] :=
    Path.pieces_path (fun other ho => (hnames other ho).noSlash)
      (List.append_ne_nil_of_right_ne_nil l (List.cons_ne_nil name []))
  have hlast : lastName (Location.path (l ++ [name])) = name := by
    rw [lastName, hpieces, List.getLast?_concat, Option.getD_some]
  refine ⟨Path.isEmpty_path _, ?_, hs, ?_, hd.entryAt?, ?_, ?_, ?_⟩
  · rw [Bool.eq_false_iff, ne_eq, List.contains_iff_mem]
    exact Path.noNul_path fun other ho => (hnames other ho).noNul
  · have hfollow := follow_directory hd maxLinks []
    rw [List.append_nil] at hfollow
    rw [Path.isAbsolute_path, if_pos rfl, hpieces, List.dropLast_concat, follow_idle rfl rfl,
      hfollow, follow]
  · rw [hlast]
    exact (looksUp_read hn l []).short
  · rw [hlast]
    exact hn.notIdle
  · rw [hlast]
    exact hn.notParent

/-- What `newLocation` checks, one thing after the other. -/
theorem newLocation_eq (t : FileTree) (cwd : Location) (path : String) :
    t.newLocation cwd path
      = if path.isEmpty then .error .notFound
        else if path.toList.contains '\x00' then .error .invalidPath
        else if path.utf8ByteSize ≥ pathByteLimit then .error .nameTooLong
        else match t.follow .read maxLinks (if Path.isAbsolute path then [] else cwd)
            (Path.pieces path).dropLast with
          | .error e => .error e
          | .ok (.vacant ..) => .error .notFound
          | .ok (.present directory) =>
            if t.entryAt? directory ≠ some .directory then .error .notDirectory
            else if nameTooLong .read directory (lastName path) then .error .nameTooLong
            else if Path.isIdle (lastName path) || lastName path = ".."
              || (t.entryAt? (directory ++ [lastName path])).isSome then .error .alreadyExists
            else .ok (directory ++ [lastName path]) := by
  unfold newLocation nameInDirectory lastName
  by_cases hempty : path.isEmpty = true
  · rw [if_pos hempty, if_pos hempty]
    rfl
  rw [if_neg hempty, if_neg hempty]
  by_cases hnul : path.toList.contains '\x00' = true
  · rw [if_pos hnul, if_pos hnul]
    rfl
  rw [if_neg hnul, if_neg hnul]
  by_cases hsize : path.utf8ByteSize ≥ pathByteLimit
  · rw [if_pos hsize, if_pos hsize]
    rfl
  rw [if_neg hsize, if_neg hsize]
  dsimp only
  generalize t.follow .read maxLinks (if Path.isAbsolute path then [] else cwd)
    (Path.pieces path).dropLast = place
  cases place with
  | error e => rfl
  | ok p =>
    cases p with
    | vacant directory name => rfl
    | present directory =>
      simp only [bind, Except.bind, pure, Except.pure, throw, throwThe, MonadExceptOf.throw]
      by_cases hd : t.entryAt? directory ≠ some .directory
      · rw [if_pos hd, if_pos hd]
      rw [if_neg hd, if_neg hd]
      by_cases hlong : nameTooLong .read directory ((Path.pieces path).getLast?.getD "") = true
      · rw [if_pos hlong, if_pos hlong]
      rw [if_neg hlong, if_neg hlong]

/-- A new file is made where nothing is. -/
theorem InDirectory.newLocation {directory : Location} (h : InDirectory t cwd path directory) :
    t.newLocation cwd path
      = if (t.entryAt? (directory ++ [lastName path])).isSome then .error .alreadyExists
        else .ok (directory ++ [lastName path]) := by
  rw [newLocation_eq, if_neg (by rw [h.notEmpty]; decide), if_neg (by rw [h.noNul]; decide),
    if_neg (Nat.not_le.2 h.short), h.leads]
  dsimp only
  rw [if_neg (not_not_intro h.isDirectory), if_neg (by rw [h.nameShort]; decide), h.notIdle,
    decide_eq_false h.notParent, Bool.false_or, Bool.false_or]

theorem follow_ne_alreadyExists {purpose : Purpose} {links : Nat} {here : Location}
    {pieces : List String} : t.follow purpose links here pieces ≠ .error .alreadyExists := by
  fun_induction follow t purpose links here pieces <;> first | assumption | simp

/-- A path under which a file could be made, or could be if it were not there already. -/
theorem inDirectory_of_newLocation
    (h : t.newLocation cwd path = .ok l ∨ t.newLocation cwd path = .error .alreadyExists)
    (hidle : Path.isIdle (lastName path) = false) (hup : lastName path ≠ "..") :
    ∃ directory, InDirectory t cwd path directory := by
  rw [newLocation_eq] at h
  split at h
  · rcases h with h | h <;> cases h
  next hempty =>
  split at h
  · rcases h with h | h <;> cases h
  next hnul =>
  split at h
  · rcases h with h | h <;> cases h
  next hsize =>
  split at h
  · next hleads =>
    rcases h with h | h
    · cases h
    · cases h
      exact absurd hleads follow_ne_alreadyExists
  · rcases h with h | h <;> cases h
  next directory hleads =>
  split at h
  · rcases h with h | h <;> cases h
  next hd =>
  split at h
  · rcases h with h | h <;> cases h
  next hlong =>
  exact ⟨directory, by simpa using hempty, by simpa using hnul, Nat.lt_of_not_le hsize, hleads,
    not_not.1 hd, by simpa using hlong, hidle, hup⟩

end ModuleHost.FileTree
