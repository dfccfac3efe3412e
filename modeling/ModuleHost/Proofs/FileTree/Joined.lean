import ModuleHost.Proofs.FileTree.Places

/-!
# Names joined to a directory

When a name is joined to the path of a directory, what is found there is the entry of that name in
the directory: nothing is found without an entry (`entryIn_of_openEntry`), and an entry that is no
link is found if the path is not too long (`EntryIn.openEntry`).
-/

namespace ModuleHost

namespace Path

variable {dir name : String}

theorem isAbsolute_of_noSlash (h : '/' ∉ name.toList) : isAbsolute name = false := by
  rw [isAbsolute, decide_eq_false_iff_not]
  exact fun hhead => h (List.mem_of_head? hhead)

/-- A path with a name joined to it is the path, maybe a slash, and the name. -/
theorem exists_join (hdir : dir ≠ "") (hname : '/' ∉ name.toList) : ∃ start,
    join dir name = start ++ "/" ++ name ∧ (dir = start ∨ dir = start ++ "/") := by
  have hempty : dir.isEmpty = false := by
    rwa [Bool.eq_false_iff, ne_eq, String.isEmpty_iff]
  rw [join, isAbsolute_of_noSlash hname, hempty, if_neg (by decide)]
  split
  · next hlast =>
    obtain ⟨cs, hcs⟩ := List.getLast?_eq_some_iff.1 hlast
    have htext : dir = String.ofList cs ++ "/" := by
      rw [← String.toList_inj, hcs, String.toList_append, String.toList_ofList]
      rfl
    exact ⟨String.ofList cs, congrArg (· ++ name) htext, .inr htext⟩
  · exact ⟨dir, rfl, .inl rfl⟩

end Path

namespace FileTree

variable {t : FileTree} {purpose : Purpose} {links : Nat} {cwd here l : Location}
  {dir name : String} {pieces rest : List String} {place : Place} {e : Entry}

/-- A path that leads somewhere is led there by its first part, which leads to an entry. -/
theorem exists_follow_of_append (hp : purpose ≠ .write) (hrest : rest ≠ [])
    (h : t.follow purpose links here (pieces ++ rest) = .ok place) :
    ∃ links' l, t.follow purpose links here pieces = .ok (.present l)
      ∧ t.follow purpose links' l rest = .ok place := by
  have hlooks : ∀ {here : Location} {piece : String} {before after : List String},
      LooksUp purpose here piece before → LooksUp purpose here piece after := by
    intro here piece before after hn
    refine ⟨hn.notIdle, hn.notParent, ?_, hn.short⟩
    rw [decide_eq_false hp, Bool.false_and, Bool.false_and]
  have hstart : ∀ {links : Nat} {here : Location} {all : List String}, [] ++ rest = all →
      t.follow purpose links here all = .ok place →
      ∃ links' l, t.follow purpose links here [] = .ok (.present l)
        ∧ t.follow purpose links' l rest = .ok place := by
    rintro links here _ rfl h
    exact ⟨links, here, by rw [follow], h⟩
  -- along the way of the whole path, until its first part is used up
  generalize hall : pieces ++ rest = all at h
  induction way_of_follow h generalizing pieces with
  | nil => exact absurd hall (List.append_ne_nil_of_right_ne_nil pieces hrest)
  | idle hd hi hway ih =>
    cases pieces with
    | nil => exact hstart hall h
    | cons piece pieces =>
      obtain ⟨rfl, htail⟩ := List.cons.inj hall
      rw [follow_idle hd hi] at h ⊢
      exact ih htail h
  | parent hd hway ih =>
    cases pieces with
    | nil => exact hstart hall h
    | cons piece pieces =>
      obtain ⟨rfl, htail⟩ := List.cons.inj hall
      rw [follow_parent hd] at h ⊢
      exact ih htail h
  | link hd hn he hway ih =>
    cases pieces with
    | nil => exact hstart hall h
    | cons piece pieces =>
      obtain ⟨rfl, htail⟩ := List.cons.inj hall
      rw [follow_link hd hn he] at h
      rw [follow_link hd (hlooks hn) he]
      exact ih ((List.append_assoc _ _ _).trans (congrArg _ htail)) h
  | entry hd hn hl he hway ih =>
    cases pieces with
    | nil => exact hstart hall h
    | cons piece pieces =>
      obtain ⟨rfl, htail⟩ := List.cons.inj hall
      rw [follow_entry hd hn hl he] at h
      rw [follow_entry hd (hlooks hn) hl he]
      exact ih htail h
  | vacant hd hn he heq =>
    cases pieces with
    | nil => exact hstart hall h
    | cons piece pieces =>
      exact absurd (List.cons.inj hall).2 (List.append_ne_nil_of_right_ne_nil pieces hrest)

theorem pathExists_iff {path : String} :
    t.pathExists cwd path = true ↔ ∃ e, t.openEntry cwd path = .ok e := by
  rw [pathExists]
  cases t.openEntry cwd path with
  | ok e => exact iff_of_true rfl ⟨e, rfl⟩
  | error e => exact iff_of_false nofun nofun

/-- The directory to which the path leads has an entry of this name. -/
def EntryIn (t : FileTree) (cwd : Location) (dir name : String) (e : Entry) : Prop :=
  ∃ l, t.locationFor .read cwd dir = .ok l ∧ t.entryAt? l = some .directory
    ∧ t.entryAt? (l ++ [name]) = some e

/-- A slash behind the path of a directory makes no difference. -/
theorem follow_slash_iff (hl : t.entryAt? l = some .directory) (hp : purpose ≠ .write) :
    t.follow purpose links here (pieces ++ [""]) = .ok (.present l)
      ↔ t.follow purpose links here pieces = .ok (.present l) := by
  constructor
  · intro h
    obtain ⟨links', l', hpieces, hslash⟩ := exists_follow_of_append hp (List.cons_ne_nil "" []) h
    have hsame : l' = l := by
      rw [follow] at hslash
      split at hslash
      · cases hslash
      · rw [if_pos (by decide), follow] at hslash
        exact Place.present.inj (Except.ok.inj hslash)
    rw [hpieces, hsame]
  · intro h
    obtain ⟨links', hrest⟩ := follow_append hp h
    rw [hrest, follow_idle hl rfl, follow]

structure Readable (path : String) : Prop where
  notEmpty : path.isEmpty = false
  noNul : path.toList.contains '\x00' = false
  short : path.utf8ByteSize < pathByteLimit

theorem place_read_eq_ok_iff {path : String} : t.place .read cwd path = .ok place
    ↔ Readable path ∧ t.follow .read maxLinks (if Path.isAbsolute path then [] else cwd)
      (Path.pieces path) = .ok place := by
  unfold FileTree.place
  split
  · next hempty => exact iff_of_false nofun fun h => absurd hempty (by rw [h.1.notEmpty]; decide)
  next hempty =>
  split
  · next hnul => exact iff_of_false nofun fun h => absurd hnul (by rw [h.1.noNul]; decide)
  next hnul =>
  split
  · next hlong =>
    have hlong : pathByteLimit ≤ path.utf8ByteSize := by simpa using hlong
    exact iff_of_false nofun fun h => Nat.not_lt.2 hlong h.1.short
  · next hshort =>
    have hreadable : Readable path :=
      ⟨Bool.not_eq_true _ ▸ hempty, Bool.not_eq_true _ ▸ hnul, by simpa using hshort⟩
    exact ⟨fun h => ⟨hreadable, h⟩, fun h => h.2⟩

/-- A name in the root is looked up there. -/
theorem locationFor_root_iff (hn : Path.IsName name) :
    t.locationFor .read cwd ("/" ++ name) = .ok l
      ↔ t.follow .read maxLinks [] [name] = .ok (.present l) := by
  have hnames : ∀ other ∈ [name], Path.IsName other := List.forall_mem_singleton.2 hn
  have hpieces : Path.pieces (Location.path [name]) = ["", name] :=
    Path.pieces_path (fun other ho => (hnames other ho).noSlash) (List.cons_ne_nil name [])
  have hreadable : Readable (Location.path [name]) := by
    refine ⟨Path.isEmpty_path _, ?_, Path.utf8ByteSize_path_singleton hn⟩
    rw [Bool.eq_false_iff, ne_eq, List.contains_iff_mem]
    exact Path.noNul_path fun other ho => (hnames other ho).noNul
  rw [← Path.path_singleton, locationFor_eq_ok_iff, place_read_eq_ok_iff, Path.isAbsolute_path,
    if_pos rfl, hpieces, follow_idle rfl rfl]
  exact and_iff_right hreadable

structure JoinsTo (dir name path : String) (front : List String) : Prop where
  pieces : Path.pieces path = front ++ [name]
  directory : Path.pieces dir = front ∨ Path.pieces dir = front ++ [""]
  isAbsolute : Path.isAbsolute path = Path.isAbsolute dir
  readable : Readable path ↔ Readable dir ∧ path.utf8ByteSize < pathByteLimit

theorem exists_joinsTo (hdir : dir ≠ "") (hn : Path.IsName name) :
    ∃ front, JoinsTo dir name (Path.join dir name) front := by
  obtain ⟨start, hjoin, hstart⟩ := Path.exists_join hdir hn.noSlash
  refine ⟨Path.pieces start, ?_, ?_, ?_, ?_⟩
  · rw [hjoin, Path.pieces_append_slash, Path.pieces_of_noSlash hn.noSlash]
  · rcases hstart with rfl | rfl
    · exact .inl rfl
    · have hslash : Path.pieces (start ++ "/" ++ "") = Path.pieces start ++ Path.pieces "" :=
        Path.pieces_append_slash start ""
      rw [String.append_empty] at hslash
      exact .inr hslash
  · have hslash : start ++ "/" ≠ "" := by simp
    rw [hjoin, Path.isAbsolute_append hslash]
    rcases hstart with rfl | rfl
    · exact Path.isAbsolute_append hdir "/"
    · rfl
  · have hnul : (Path.join dir name).toList.contains '\x00' = dir.toList.contains '\x00' := by
      rw [hjoin, Bool.eq_iff_iff, List.contains_iff_mem, List.contains_iff_mem]
      rcases hstart with rfl | rfl <;> simp [hn.noNul]
    have hsize : dir.utf8ByteSize ≤ (Path.join dir name).utf8ByteSize := by
      rw [hjoin]
      rcases hstart with rfl | rfl <;> simp only [String.utf8ByteSize_append] <;> omega
    have hjoinNe : (Path.join dir name).isEmpty = false := by
      rw [hjoin]
      simp
    have hdirNe : dir.isEmpty = false := by
      rwa [Bool.eq_false_iff, ne_eq, String.isEmpty_iff]
    constructor
    · intro h
      exact ⟨⟨hdirNe, hnul ▸ h.noNul, Nat.lt_of_le_of_lt hsize h.short⟩, h.short⟩
    · rintro ⟨h, hshort⟩
      exact ⟨hjoinNe, hnul ▸ h.noNul, hshort⟩

/-- Where a path with a name joined to it leads, if its directory is there. -/
theorem place_join (hdir : t.locationFor .read cwd dir = .ok l)
    (hl : t.entryAt? l = some .directory) (hn : Path.IsName name)
    (hs : (Path.join dir name).utf8ByteSize < pathByteLimit) :
    ∃ links, ∀ place, t.place .read cwd (Path.join dir name) = .ok place
      ↔ t.follow .read links l [name] = .ok place := by
  rw [locationFor_eq_ok_iff, place_read_eq_ok_iff] at hdir
  obtain ⟨hreadable, hfollow⟩ := hdir
  have hne : dir ≠ "" := by
    rintro rfl
    cases hreadable.notEmpty
  obtain ⟨front, hjoin⟩ := exists_joinsTo hne hn
  have hfront : t.follow .read maxLinks (if Path.isAbsolute dir then [] else cwd) front
      = .ok (.present l) := by
    rcases hjoin.directory with heq | heq
    · rwa [heq] at hfollow
    · rwa [heq, follow_slash_iff hl (by decide)] at hfollow
  obtain ⟨links, hrest⟩ := follow_append (by decide) hfront
  refine ⟨links, fun place => ?_⟩
  rw [place_read_eq_ok_iff, ← hrest, ← hjoin.isAbsolute, ← hjoin.pieces]
  exact and_iff_right (hjoin.readable.2 ⟨hreadable, hs⟩)

/-- An entry that is no link is opened, if the path is not too long. -/
theorem EntryIn.openEntry (h : EntryIn t cwd dir name e) (hlink : ∀ target, e ≠ .link target)
    (hn : Path.IsName name) (hs : (Path.join dir name).utf8ByteSize < pathByteLimit) :
    t.openEntry cwd (Path.join dir name) = .ok e := by
  obtain ⟨l, hdir, hl, he⟩ := h
  obtain ⟨links, hplace⟩ := place_join hdir hl hn hs
  rw [openEntry_eq_ok_iff]
  refine ⟨l ++ [name], ?_, he⟩
  rw [locationFor_eq_ok_iff, hplace, follow_entry hl (looksUp_read hn l []) hlink he, follow]

/-- A link to a name that is free in its directory cannot be opened. -/
theorem openEntry_ne_ok_of_link {target : String} (hdir : t.locationFor .read cwd dir = .ok l)
    (hl : t.entryAt? l = some .directory) (he : t.entryAt? (l ++ [name]) = some (.link target))
    (hn : Path.IsName name) (htarget : Path.IsName target)
    (hfree : t.entryAt? (l ++ [target]) = none) (e : Entry) :
    t.openEntry cwd (Path.join dir name) ≠ .ok e := by
  intro hopen
  obtain ⟨links, hplace⟩ := place_join hdir hl hn (utf8ByteSize_lt_of_openEntry hopen)
  obtain ⟨l', hl', -⟩ := openEntry_eq_ok_iff.1 hopen
  rw [locationFor_eq_ok_iff, hplace] at hl'
  cases links with
  | zero =>
    rw [follow_name hl (looksUp_read hn l []), he] at hl'
    cases hl'
  | succ links =>
    have hpieces : Path.pieces target ++ [] = [target] :=
      congrArg (· ++ []) (Path.pieces_of_noSlash htarget.noSlash)
    rw [follow_link hl (looksUp_read hn l []) he, hpieces,
      Path.isAbsolute_of_noSlash htarget.noSlash, if_neg (by decide),
      follow_name hl (looksUp_read htarget l []), hfree] at hl'
    cases hl'

/-- Where there is no entry, nothing is opened. -/
theorem entryIn_of_openEntry (hdir : dir ≠ "") (hn : Path.IsName name)
    (h : t.openEntry cwd (Path.join dir name) = .ok e) : ∃ e', EntryIn t cwd dir name e' := by
  obtain ⟨l', hl', -⟩ := openEntry_eq_ok_iff.1 h
  rw [locationFor_eq_ok_iff, place_read_eq_ok_iff] at hl'
  obtain ⟨hreadable, hfollow⟩ := hl'
  obtain ⟨front, hjoin⟩ := exists_joinsTo hdir hn
  rw [hjoin.pieces, hjoin.isAbsolute] at hfollow
  obtain ⟨links, l, hfront, hname⟩ :=
    exists_follow_of_append (by decide) (List.cons_ne_nil name []) hfollow
  have hentry : t.entryAt? l = some .directory ∧ ∃ e', t.entryAt? (l ++ [name]) = some e' := by
    cases way_of_follow hname with
    | idle _ hi => rw [hn.notIdle] at hi; cases hi
    | parent => exact absurd rfl hn.notParent
    | link hd _ he => exact ⟨hd, _, he⟩
    | entry hd _ _ he => exact ⟨hd, _, he⟩
    | vacant _ _ _ heq => cases heq
  obtain ⟨hl, e', he'⟩ := hentry
  refine ⟨e', l, ?_, hl, he'⟩
  rw [locationFor_eq_ok_iff, place_read_eq_ok_iff]
  refine ⟨(hjoin.readable.1 hreadable).1, ?_⟩
  rcases hjoin.directory with heq | heq
  · rwa [heq]
  · rwa [heq, follow_slash_iff hl (by decide)]

end FileTree

end ModuleHost
