import ModuleHost.Proofs.FileTree.Paths

/-!
# Where paths lead

A path is followed piece by piece, so the way along two pieces of path put together is the way along
the first and then the way along the second (`follow_append`).  A way that leads somewhere looks at
entries only and never at what is not there, so it leads to the same place in every tree that keeps
these entries (`follow_mono`).
-/

namespace ModuleHost.FileTree

variable {t t' : FileTree} {purpose : Purpose} {links : Nat} {here l : Location}
  {piece target : String} {pieces rest : List String} {place : Place}

/-! ### One piece -/

/-- A piece that is a name which can be looked up. -/
structure LooksUp (purpose : Purpose) (here : Location) (piece : String) (rest : List String) :
    Prop where
  notIdle : Path.isIdle piece = false
  notParent : piece ≠ ".."
  notDirectory : (purpose = .write && !rest.isEmpty && rest.all (·.isEmpty)) = false
  short : nameTooLong purpose here piece = false

theorem follow_idle (hd : t.entryAt? here = some .directory) (hi : Path.isIdle piece = true) :
    t.follow purpose links here (piece :: rest) = t.follow purpose links here rest := by
  rw [follow, if_neg (not_not_intro hd), if_pos hi]

theorem follow_parent (hd : t.entryAt? here = some .directory) :
    t.follow purpose links here (".." :: rest) = t.follow purpose links here.dropLast rest := by
  rw [follow, if_neg (not_not_intro hd), if_neg (by decide), if_pos rfl]

theorem follow_name (hd : t.entryAt? here = some .directory)
    (hn : LooksUp purpose here piece rest) :
    t.follow purpose links here (piece :: rest)
      = match t.entryAt? (here ++ [piece]) with
        | none => if rest.isEmpty then .ok (.vacant here piece) else .error .notFound
        | some (.link target) =>
          match links with
          | 0 => .error .tooManyLinks
          | links + 1 => t.follow purpose links (if Path.isAbsolute target then [] else here)
              (Path.pieces target ++ rest)
        | some _ => t.follow purpose links (here ++ [piece]) rest := by
  rw [follow, if_neg (not_not_intro hd), if_neg (by rw [hn.notIdle]; decide), if_neg hn.notParent,
    if_neg (by rw [hn.notDirectory]; decide)]
  exact if_neg (by rw [hn.short]; decide)

theorem follow_link (hd : t.entryAt? here = some .directory)
    (hn : LooksUp purpose here piece rest)
    (he : t.entryAt? (here ++ [piece]) = some (.link target)) :
    t.follow purpose (links + 1) here (piece :: rest)
      = t.follow purpose links (if Path.isAbsolute target then [] else here)
          (Path.pieces target ++ rest) := by
  rw [follow_name hd hn, he]

theorem follow_entry (hd : t.entryAt? here = some .directory)
    (hn : LooksUp purpose here piece rest) {e : Entry} (hl : ∀ target, e ≠ .link target)
    (he : t.entryAt? (here ++ [piece]) = some e) :
    t.follow purpose links here (piece :: rest)
      = t.follow purpose links (here ++ [piece]) rest := by
  rw [follow_name hd hn, he]
  cases e with
  | link target => exact absurd rfl (hl target)
  | file | directory => rfl

/-- What is in `t` is in `t'` as well. -/
def Keeps (t t' : FileTree) : Prop := ∀ l e, t.entryAt? l = some e → t'.entryAt? l = some e

/-! ### Whole paths -/

/-- A way ends at once, or its first piece is one of these. -/
inductive Way (t : FileTree) (purpose : Purpose) (place : Place) :
    Nat → Location → List String → Prop
  | nil {links : Nat} {here : Location} (h : place = .present here) :
      Way t purpose place links here []
  | idle {links : Nat} {here : Location} {piece : String} {rest : List String}
      (hd : t.entryAt? here = some .directory) (hi : Path.isIdle piece = true)
      (h : Way t purpose place links here rest) : Way t purpose place links here (piece :: rest)
  | parent {links : Nat} {here : Location} {rest : List String}
      (hd : t.entryAt? here = some .directory)
      (h : Way t purpose place links here.dropLast rest) :
      Way t purpose place links here (".." :: rest)
  | link {links : Nat} {here : Location} {piece target : String} {rest : List String}
      (hd : t.entryAt? here = some .directory) (hn : LooksUp purpose here piece rest)
      (he : t.entryAt? (here ++ [piece]) = some (.link target))
      (h : Way t purpose place links (if Path.isAbsolute target then [] else here)
        (Path.pieces target ++ rest)) : Way t purpose place (links + 1) here (piece :: rest)
  | entry {links : Nat} {here : Location} {piece : String} {rest : List String} {e : Entry}
      (hd : t.entryAt? here = some .directory) (hn : LooksUp purpose here piece rest)
      (hl : ∀ target, e ≠ .link target) (he : t.entryAt? (here ++ [piece]) = some e)
      (h : Way t purpose place links (here ++ [piece]) rest) :
      Way t purpose place links here (piece :: rest)
  | vacant {links : Nat} {here : Location} {piece : String}
      (hd : t.entryAt? here = some .directory) (hn : LooksUp purpose here piece [])
      (he : t.entryAt? (here ++ [piece]) = none) (h : place = .vacant here piece) :
      Way t purpose place links here [piece]

/-- A path that leads to a place has a way there. -/
theorem way_of_follow (h : t.follow purpose links here pieces = .ok place) :
    Way t purpose place links here pieces := by
  fun_induction follow t purpose links here pieces with
  | case1 links here =>
    cases h
    exact .nil rfl
  | case2 | case5 | case6 | case8 | case9 => cases h
  | case3 links here piece rest hd hi ih => exact .idle (not_not.1 hd) hi (ih h)
  | case4 links here rest hd hi ih => exact .parent (not_not.1 hd) (ih h)
  | case7 links here piece rest hd hi hp hw hs he hr =>
    cases h
    obtain rfl := List.isEmpty_iff.1 hr
    exact .vacant (not_not.1 hd) ⟨by simpa using hi, hp, by simp, by simpa using hs⟩ he rfl
  | case10 here piece rest hd hi hp hw hs target he links ih =>
    have hn : LooksUp purpose here piece rest :=
      ⟨by simpa using hi, hp, by simpa using hw, by simpa using hs⟩
    exact .link (not_not.1 hd) hn he (ih h)
  | case11 links here piece rest hd hi hp hw hs e hl he ih =>
    have hn : LooksUp purpose here piece rest :=
      ⟨by simpa using hi, hp, by simpa using hw, by simpa using hs⟩
    exact .entry (not_not.1 hd) hn (fun target heq => hl target heq) he (ih h)

/-- The path goes on where its first part has led, with the links that are left. -/
theorem follow_append (hp : purpose ≠ .write)
    (h : t.follow purpose links here pieces = .ok (.present l)) :
    ∃ links', ∀ rest, t.follow purpose links here (pieces ++ rest)
      = t.follow purpose links' l rest := by
  have hlooks : ∀ {here : Location} {piece : String} {before : List String},
      LooksUp purpose here piece before →
      ∀ rest : List String, LooksUp purpose here piece (before ++ rest) := by
    intro here piece before hn rest
    refine ⟨hn.notIdle, hn.notParent, ?_, hn.short⟩
    rw [decide_eq_false hp, Bool.false_and, Bool.false_and]
  generalize hplace : Place.present l = place at h
  induction way_of_follow h with
  | @nil links here heq =>
    obtain rfl := Place.present.inj (hplace.trans heq)
    exact ⟨links, fun rest => rfl⟩
  | idle hd hi hway ih =>
    rw [follow_idle hd hi] at h
    obtain ⟨links', hrest⟩ := ih h
    exact ⟨links', fun rest => (follow_idle hd hi).trans (hrest rest)⟩
  | parent hd hway ih =>
    rw [follow_parent hd] at h
    obtain ⟨links', hrest⟩ := ih h
    exact ⟨links', fun rest => (follow_parent hd).trans (hrest rest)⟩
  | link hd hn he hway ih =>
    rw [follow_link hd hn he] at h
    obtain ⟨links', hrest⟩ := ih h
    refine ⟨links', fun rest => ?_⟩
    rw [List.cons_append, follow_link hd (hlooks hn rest) he, ← List.append_assoc]
    exact hrest rest
  | entry hd hn hl he hway ih =>
    rw [follow_entry hd hn hl he] at h
    obtain ⟨links', hrest⟩ := ih h
    refine ⟨links', fun rest => ?_⟩
    rw [List.cons_append, follow_entry hd (hlooks hn rest) hl he]
    exact hrest rest
  | vacant hd hn he heq => cases hplace.trans heq

/-- In a tree that keeps the entries of `t` the path leads to the same place, unless something has
been put there. -/
theorem follow_mono (hk : Keeps t t') (h : t.follow purpose links here pieces = .ok place)
    (hv : ∀ directory name, place = .vacant directory name →
      t'.entryAt? (directory ++ [name]) = none) :
    t'.follow purpose links here pieces = .ok place := by
  induction way_of_follow h with
  | nil heq => rw [follow, heq]
  | idle hd hi hway ih =>
    rw [follow_idle hd hi] at h
    rw [follow_idle (hk _ _ hd) hi]
    exact ih h
  | parent hd hway ih =>
    rw [follow_parent hd] at h
    rw [follow_parent (hk _ _ hd)]
    exact ih h
  | link hd hn he hway ih =>
    rw [follow_link hd hn he] at h
    rw [follow_link (hk _ _ hd) hn (hk _ _ he)]
    exact ih h
  | entry hd hn hl he hway ih =>
    rw [follow_entry hd hn hl he] at h
    rw [follow_entry (hk _ _ hd) hn hl (hk _ _ he)]
    exact ih h
  | vacant hd hn he heq =>
    rw [follow_name (hk _ _ hd) hn, hv _ _ heq, heq]
    rfl

/-! ### Directories and their files -/

/-- The location is that of a directory, and so is every location above it. -/
structure DirectoryAt (t : FileTree) (l : Location) : Prop where
  names : ∀ name ∈ l, Path.IsName name
  directories : ∀ n ≤ l.length, t.entryAt? (l.take n) = some .directory

theorem DirectoryAt.entryAt? (hd : DirectoryAt t l) : t.entryAt? l = some .directory := by
  have h := hd.directories l.length (Nat.le_refl _)
  rwa [List.take_length] at h

theorem directoryAt_root (t : FileTree) : DirectoryAt t [] := by
  refine ⟨by simp, fun n _ => ?_⟩
  rw [List.take_nil]
  rfl

theorem DirectoryAt.mono (hk : Keeps t t') (hd : DirectoryAt t l) : DirectoryAt t' l :=
  ⟨hd.names, fun n hn => hk _ _ (hd.directories n hn)⟩

theorem looksUp_read {name : String} (hn : Path.IsName name) (here : Location)
    (rest : List String) : LooksUp .read here name rest := by
  refine ⟨hn.notIdle, hn.notParent, rfl, ?_⟩
  rw [nameTooLong, decide_eq_false (Nat.not_lt.2 hn.short)]
  rfl

/-- The names of a location lead there. -/
theorem follow_directory (hd : DirectoryAt t l) (links : Nat) (rest : List String) :
    t.follow .read links [] (l ++ rest) = t.follow .read links l rest := by
  have hfrom : ∀ (names : List String) (here : Location), (∀ name ∈ names, Path.IsName name) →
      (∀ n ≤ names.length, t.entryAt? (here ++ names.take n) = some .directory) →
      t.follow .read links here (names ++ rest) = t.follow .read links (here ++ names) rest := by
    intro names
    induction names with
    | nil =>
      intro here _ _
      rw [List.nil_append, List.append_nil]
    | cons name names ih =>
      intro here hnames hdirs
      have hhere : t.entryAt? here = some .directory := by
        have h := hdirs 0 (Nat.zero_le _)
        rwa [List.take_zero, List.append_nil] at h
      have hnext : t.entryAt? (here ++ [name]) = some .directory := by
        have h := hdirs 1 (Nat.succ_le_succ (Nat.zero_le _))
        rwa [List.take_succ_cons, List.take_zero] at h
      have hname := hnames name List.mem_cons_self
      rw [List.cons_append, follow_entry hhere (looksUp_read hname here _) (by simp) hnext,
        ih (here ++ [name]) (fun n hn => hnames n (List.mem_cons_of_mem _ hn)), List.append_assoc]
      · rfl
      · intro n hn
        have h := hdirs (n + 1) (Nat.succ_le_succ hn)
        rwa [List.take_succ_cons, List.append_cons] at h
  exact hfrom l [] hd.names (by simpa using hd.directories)

/-- A file is opened by its path, if that is not too long. -/
theorem openEntry_path {name : String} {e : Entry} (hd : DirectoryAt t l) (hn : Path.IsName name)
    (he : t.entryAt? (l ++ [name]) = some e) (hl : ∀ target, e ≠ .link target)
    (hs : (Location.path (l ++ [name])).utf8ByteSize < pathByteLimit) (cwd : Location) :
    t.openEntry cwd (Location.path (l ++ [name])) = .ok e := by
  have hnames : ∀ other ∈ l ++ [name], Path.IsName other := by
    intro other ho
    rcases List.mem_append.1 ho with ho | ho
    · exact hd.names other ho
    · exact List.mem_singleton.1 ho ▸ hn
  have hpieces := Path.pieces_path (fun other ho => (hnames other ho).noSlash)
    (List.append_ne_nil_of_right_ne_nil l (List.cons_ne_nil name []))
  have hfollow : t.follow .read maxLinks [] ("" :: (l ++ [name]))
      = .ok (.present (l ++ [name])) := by
    rw [follow_idle rfl rfl, follow_directory hd,
      follow_entry hd.entryAt? (looksUp_read hn l []) hl he, follow]
  have hplace : t.place .read cwd (Location.path (l ++ [name])) = .ok (.present (l ++ [name])) := by
    rw [place, if_neg, if_neg, if_neg, Path.isAbsolute_path, if_pos rfl, hpieces, hfollow]
    · rw [decide_eq_false (Nat.not_le.2 hs), Bool.and_false]
      decide
    · rw [List.contains_iff_mem]
      exact Path.noNul_path fun other ho => (hnames other ho).noNul
    · rw [Path.isEmpty_path]
      decide
  simp only [openEntry, locationFor, hplace, bind, Except.bind, pure, Except.pure, he]

def single (name : String) (contents : List UInt8) : FileTree :=
  { entries := [([name], .file contents)] }

theorem openEntry_single {name : String} (hn : Path.IsName name) (contents : List UInt8)
    (cwd : Location) :
    (single name contents).openEntry cwd ("/" ++ name) = .ok (.file contents) := by
  have hfile : (single name contents).entryAt? ([] ++ [name]) = some (.file contents) := by
    rw [entryAt?, if_neg (by simp), single, List.nil_append, List.lookup_cons_self]
  rw [← Path.path_singleton]
  exact openEntry_path (directoryAt_root _) hn hfile (by simp)
    (Path.utf8ByteSize_path_singleton hn) cwd

end ModuleHost.FileTree
