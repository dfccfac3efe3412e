import ModuleHost.Proofs.FileTree.Paths
import Mathlib.Data.List.Basic

/-!
# The directories above a path

The directories above an absolute path are the root and the beginnings of the path that end in a
name and leave out at least one (`Ancestor`).  The list of ancestors has all of them
(`mem_ancestors_iff`) and goes from the longest to the shortest (`pairwise_ancestors`).
-/

namespace ModuleHost.Path

variable {path dir piece name : String} {reversed before front behind : List String}

/-- The path, or the text of a directory above it: the root if there is a name, or the path up to a
name behind which there are more. -/
inductive Ancestor (path : String) : String → Prop
  | self : Ancestor path path
  | root {piece : String} (hpiece : piece ∈ pieces path) (hname : isIdle piece = false) :
      Ancestor path "/"
  | upTo {front behind : List String} {name piece : String}
      (hpath : pieces path = front ++ name :: behind) (hname : isIdle name = false)
      (hpiece : piece ∈ behind) (hmore : isIdle piece = false) :
      Ancestor path (String.intercalate "/" (front ++ [name]))

theorem Ancestor.ne_empty (h : Ancestor path dir) (hpath : path ≠ "") : dir ≠ "" := by
  cases h with
  | self => exact hpath
  | root => decide
  | @upTo front behind name piece heq hname =>
    by_cases hfront : front = []
    · rw [hfront, List.nil_append, String.intercalate_singleton]
      rintro rfl
      cases hname
    · rw [String.intercalate_append_of_ne_nil hfront (List.cons_ne_nil name [])]
      simp

/-! ### Pieces of an absolute path -/

/-- From the last piece to the first, the pieces are those of an absolute path. -/
def Rooted (reversed : List String) : Prop := reversed.getLast? = some ""

theorem rooted_pieces (h : isAbsolute path = true) : Rooted (pieces path).reverse := by
  obtain ⟨cs, hcs⟩ := List.head?_eq_some_iff.1 (of_decide_eq_true h)
  have hsplit : ([] ++ '/' :: cs).splitOn '/' = [[]] ++ cs.splitOn '/' := by
    rw [List.splitOn_append_cons_self, List.splitOn_nil]
  rw [Rooted, List.getLast?_reverse, pieces, hcs]
  exact congrArg (fun pieces => (pieces.map String.ofList).head?) hsplit

theorem Rooted.tail (h : Rooted (piece :: before)) (hne : before ≠ []) : Rooted before := by
  rwa [Rooted, List.getLast?_cons_of_ne_nil hne] at h

theorem Rooted.of_append (h : Rooted (behind ++ name :: before)) : Rooted (name :: before) := by
  have hlast := List.getLast?_append_of_ne_nil behind (List.cons_ne_nil name before)
  exact hlast.symm.trans h

/-- The first piece of an absolute path is empty, so a name is not the first one. -/
theorem Rooted.ne_nil (h : Rooted (name :: before)) (hname : isIdle name = false) :
    before ≠ [] := by
  rintro rfl
  obtain rfl : name = "" := Option.some.inj h
  cases hname

/-- In an absolute path a dot is no name. -/
theorem Rooted.isIdleBehind_eq (h : Rooted (piece :: before)) :
    isIdleBehind before piece = isIdle piece := by
  cases before with
  | nil =>
    obtain rfl : piece = "" := Option.some.inj h
    rfl
  | cons p before =>
    rw [isIdleBehind, List.isEmpty_cons, Bool.and_false, Bool.not_false, Bool.and_true]

/-! ### The text of some pieces -/

/-- The text of pieces that are given from the last to the first. -/
def textOf (reversed : List String) : String := String.intercalate "/" reversed.reverse

theorem textOf_append (hbehind : behind ≠ []) (hfront : front ≠ []) :
    textOf (behind ++ front) = textOf front ++ "/" ++ textOf behind := by
  rw [textOf, List.reverse_append, String.intercalate_append_of_ne_nil]
  · rfl
  · rwa [ne_eq, List.reverse_eq_nil_iff]
  · rwa [ne_eq, List.reverse_eq_nil_iff]

theorem length_textOf_lt (hbehind : behind ≠ []) (hfront : front ≠ []) :
    (textOf front).length < (textOf (behind ++ front)).length := by
  rw [textOf_append hbehind hfront, String.length_append, String.length_append]
  have hslash : "/".length = 1 := rfl
  omega

theorem textOf_pieces (path : String) : textOf (pieces path).reverse = path := by
  rw [textOf, List.reverse_reverse, ← String.toList_inj, String.toList_intercalate, pieces,
    List.map_map]
  have hid : String.toList ∘ String.ofList = id := funext fun cs => String.toList_ofList
  rw [hid, List.map_id]
  exact List.intercalate_splitOn '/'

/-! ### What the list of ancestors has -/

def IsAbove (reversed : List String) (dir : String) : Prop :=
  (dir = "/" ∧ ∃ piece ∈ reversed, isIdle piece = false)
    ∨ ∃ behind name front, reversed = behind ++ name :: front ∧ isIdle name = false
      ∧ (∃ piece ∈ behind, isIdle piece = false) ∧ dir = textOf (name :: front)

/-- There is something above names only. -/
theorem IsAbove.exists_name (h : IsAbove reversed dir) :
    ∃ piece ∈ reversed, isIdle piece = false := by
  rcases h with ⟨-, hname⟩ | ⟨behind, name, front, rfl, hname, -⟩
  · exact hname
  · exact ⟨name, List.mem_append_right behind List.mem_cons_self, hname⟩

theorem isAbove_idle (hidle : isIdle piece = true) :
    IsAbove (piece :: before) dir ↔ IsAbove before dir := by
  have hskip : ∀ pieces : List String, (∃ p ∈ piece :: pieces, isIdle p = false)
      ↔ ∃ p ∈ pieces, isIdle p = false := by
    intro pieces
    rw [List.exists_mem_cons_iff, hidle]
    exact or_iff_right (by decide)
  refine or_congr (and_congr_right fun _ => hskip before) ?_
  constructor
  · rintro ⟨behind, name, front, heq, hname, hmore, hdir⟩
    cases behind with
    | nil =>
      obtain ⟨p, hp, -⟩ := hmore
      cases hp
    | cons p behind =>
      obtain ⟨rfl, rfl⟩ := List.cons.inj heq
      exact ⟨behind, name, front, rfl, hname, (hskip behind).1 hmore, hdir⟩
  · rintro ⟨behind, name, front, rfl, hname, hmore, hdir⟩
    exact ⟨piece :: behind, name, front, rfl, hname, (hskip behind).2 hmore, hdir⟩

/-- There are idle pieces only, or there is a last name. -/
theorem idle_or_name (before : List String) : (∀ piece ∈ before, isIdle piece = true)
    ∨ ∃ idles name front, before = idles ++ name :: front
      ∧ (∀ piece ∈ idles, isIdle piece = true) ∧ isIdle name = false := by
  induction before with
  | nil => exact .inl nofun
  | cons piece before ih =>
    cases hidle : isIdle piece with
    | false => exact .inr ⟨[], piece, before, rfl, nofun, hidle⟩
    | true =>
      rcases ih with hall | ⟨idles, name, front, rfl, hall, hname⟩
      · exact .inl (List.forall_mem_cons.2 ⟨hidle, hall⟩)
      · exact .inr ⟨piece :: idles, name, front, rfl, List.forall_mem_cons.2 ⟨hidle, hall⟩, hname⟩

theorem above_idle (h : Rooted (piece :: before)) (hidle : isIdle piece = true) :
    above "/" (piece :: before) = above "/" before := by
  rw [above, h.isIdleBehind_eq, if_pos hidle]

theorem fromLastName_idle (h : Rooted (piece :: before)) (hidle : isIdle piece = true) :
    fromLastName (piece :: before) = fromLastName before := by
  rw [fromLastName, h.isIdleBehind_eq, if_pos hidle]

section

variable {idles : List String}

/-- Idle pieces behind a name are passed over. -/
theorem of_idles {p : List String → Prop} (hskip : ∀ piece before, Rooted (piece :: before) →
      isIdle piece = true → p before → p (piece :: before))
    (h : Rooted (idles ++ name :: front)) (hall : ∀ piece ∈ idles, isIdle piece = true)
    (hp : p (name :: front)) : p (idles ++ name :: front) := by
  induction idles with
  | nil => exact hp
  | cons piece idles ih =>
    rw [List.forall_mem_cons] at hall
    have hne : idles ++ name :: front ≠ [] :=
      List.append_ne_nil_of_right_ne_nil idles (List.cons_ne_nil name front)
    exact hskip piece _ h hall.1 (ih (h.tail hne) hall.2)

theorem above_idles (h : Rooted (idles ++ name :: front))
    (hall : ∀ piece ∈ idles, isIdle piece = true) :
    above "/" (idles ++ name :: front) = above "/" (name :: front) :=
  of_idles (p := fun before => above "/" before = above "/" (name :: front))
    (fun _ _ h hidle => (above_idle h hidle).trans) h hall rfl

/-- The directory that the names behind these pieces are in. -/
def directoryOf (before : List String) : String :=
  if (fromLastName before).reverse.isEmpty then "/"
  else String.intercalate "/" (fromLastName before).reverse

theorem above_name (h : Rooted (name :: before)) (hname : isIdle name = false) :
    above "/" (name :: before) = directoryOf before :: above "/" before := by
  rw [above, h.isIdleBehind_eq, hname]
  rfl

theorem directoryOf_name (h : Rooted (idles ++ name :: front))
    (hall : ∀ piece ∈ idles, isIdle piece = true) (hname : isIdle name = false) :
    directoryOf (idles ++ name :: front) = textOf (name :: front) := by
  have hlast : fromLastName (idles ++ name :: front) = name :: front := by
    refine of_idles (p := fun before => fromLastName before = name :: front)
      (fun _ _ h hidle => (fromLastName_idle h hidle).trans) h hall ?_
    rw [fromLastName, h.of_append.isIdleBehind_eq, hname]
    rfl
  rw [directoryOf, hlast, if_neg (by simp)]
  rfl

end

theorem directoryOf_idles (h : Rooted before) (hall : ∀ piece ∈ before, isIdle piece = true) :
    directoryOf before = "/" := by
  have hnone : fromLastName before = [] := by
    induction before with
    | nil => cases h
    | cons piece before ih =>
      rw [List.forall_mem_cons] at hall
      rw [fromLastName_idle h hall.1]
      by_cases hne : before = []
      · rw [hne]
        rfl
      · exact ih (h.tail hne) hall.2
  rw [directoryOf, hnone]
  rfl

/-- Above a name there is its directory and what is above the other pieces. -/
theorem isAbove_name (h : Rooted before) (hname : isIdle piece = false) :
    IsAbove (piece :: before) dir ↔ dir = directoryOf before ∨ IsAbove before dir := by
  constructor
  · rintro (⟨rfl, -⟩ | ⟨behind, name, front, heq, hidle, ⟨p, hp, hmore⟩, rfl⟩)
    · rcases idle_or_name before with hall | ⟨idles, name, front, rfl, -, hidle⟩
      · exact .inl (directoryOf_idles h hall).symm
      · exact .inr (.inl ⟨rfl, name, List.mem_append_right idles List.mem_cons_self, hidle⟩)
    · cases behind with
      | nil => cases hp
      | cons q behind =>
        obtain ⟨rfl, rfl⟩ := List.cons.inj heq
        by_cases hbehind : ∃ p ∈ behind, isIdle p = false
        · exact .inr (.inr ⟨behind, name, front, rfl, hidle, hbehind, rfl⟩)
        · refine .inl (directoryOf_name h (fun p hp => ?_) hidle).symm
          exact Bool.of_not_eq_false fun hmore => hbehind ⟨p, hp, hmore⟩
  · rintro (rfl | ⟨rfl, p, hp, hidle⟩ | ⟨behind, name, front, rfl, hidle, ⟨p, hp, hmore⟩, rfl⟩)
    · rcases idle_or_name before with hall | ⟨idles, name, front, rfl, hall, hidle⟩
      · exact .inl ⟨directoryOf_idles h hall, piece, List.mem_cons_self, hname⟩
      · exact .inr ⟨piece :: idles, name, front, rfl, hidle, ⟨piece, List.mem_cons_self, hname⟩,
          directoryOf_name h hall hidle⟩
    · exact .inl ⟨rfl, p, List.mem_cons_of_mem piece hp, hidle⟩
    · exact .inr ⟨piece :: behind, name, front, rfl, hidle,
        ⟨p, List.mem_cons_of_mem piece hp, hmore⟩, rfl⟩

theorem mem_above_iff (h : Rooted reversed) : dir ∈ above "/" reversed ↔ IsAbove reversed dir := by
  induction reversed with
  | nil => cases h
  | cons piece before ih =>
    cases hidle : isIdle piece with
    | true =>
      rw [above_idle h hidle, isAbove_idle hidle]
      by_cases hne : before = []
      · subst hne
        refine iff_of_false List.not_mem_nil ?_
        rintro (⟨-, p, hp, -⟩ | ⟨behind, name, front, heq, -⟩)
        · cases hp
        · exact absurd heq.symm (List.append_ne_nil_of_right_ne_nil behind (List.cons_ne_nil _ _))
      · exact ih (h.tail hne)
    | false =>
      have hbefore := h.tail (h.ne_nil hidle)
      rw [above_name h hidle, List.mem_cons, ih hbefore, isAbove_name hbefore hidle]

/-- The list of ancestors has the ancestors and nothing else. -/
theorem mem_ancestors_iff (h : isAbsolute path = true) :
    dir ∈ ancestors path ↔ Ancestor path dir := by
  have habove : dir ∈ above "/" (pieces path).reverse ↔ IsAbove (pieces path).reverse dir :=
    mem_above_iff (rooted_pieces h)
  rw [ancestors, if_pos h, List.mem_cons, habove]
  constructor
  · rintro (rfl | ⟨rfl, piece, hpiece, hname⟩
      | ⟨behind, name, front, heq, hname, ⟨piece, hpiece, hmore⟩, rfl⟩)
    · exact .self
    · exact .root (List.mem_reverse.1 hpiece) hname
    · have hpath : pieces path = front.reverse ++ name :: behind.reverse := by
        rw [← List.reverse_reverse (pieces path), heq]
        simp
      have hdir := Ancestor.upTo hpath hname (List.mem_reverse.2 hpiece) hmore
      rwa [← List.reverse_cons] at hdir
  · intro hancestor
    cases hancestor with
    | self => exact .inl rfl
    | root hpiece hname => exact .inr (.inl ⟨rfl, _, List.mem_reverse.2 hpiece, hname⟩)
    | @upTo front behind name piece hpath hname hpiece hmore =>
      refine .inr (.inr ⟨behind.reverse, name, front.reverse, ?_, hname,
        ⟨piece, List.mem_reverse.2 hpiece, hmore⟩, ?_⟩)
      · rw [hpath]
        simp
      · rw [textOf, List.reverse_cons, List.reverse_reverse]

/-! ### Its order -/

theorem length_textOf_pos (behind : List String) (hname : isIdle name = false) :
    0 < (textOf (behind ++ [name])).length := by
  have hpos : 0 < (textOf [name]).length := by
    rw [textOf, List.reverse_singleton, String.intercalate_singleton, Nat.pos_iff_ne_zero, ne_eq,
      String.length_eq_zero_iff]
    rintro rfl
    cases hname
  by_cases hbehind : behind = []
  · rwa [hbehind]
  · exact Nat.lt_trans hpos (length_textOf_lt hbehind (List.cons_ne_nil name []))

theorem length_lt_of_isAbove (h : Rooted reversed) (habove : IsAbove reversed dir) :
    dir.length < (textOf reversed).length := by
  rcases habove with ⟨rfl, name, hmem, hname⟩
    | ⟨behind, name, front, rfl, -, ⟨piece, hpiece, -⟩, rfl⟩
  · obtain ⟨behind, front, rfl⟩ := List.append_of_mem hmem
    have hfront : front ≠ [] := h.of_append.ne_nil hname
    have hbehind : behind ++ [name] ≠ [] :=
      List.append_ne_nil_of_right_ne_nil behind (List.cons_ne_nil name [])
    have hlong := length_textOf_pos behind hname
    have hslash : "/".length = 1 := rfl
    rw [List.append_cons, textOf_append hbehind hfront, String.length_append, String.length_append]
    omega
  · exact length_textOf_lt (List.ne_nil_of_mem hpiece) (List.cons_ne_nil name front)

theorem pairwise_above (h : Rooted reversed) :
    (above "/" reversed).Pairwise fun longer dir => dir.length < longer.length := by
  induction reversed with
  | nil => cases h
  | cons piece before ih =>
    cases hidle : isIdle piece with
    | true =>
      rw [above_idle h hidle]
      by_cases hne : before = []
      · rw [hne]
        exact .nil
      · exact ih (h.tail hne)
    | false =>
      have hbefore := h.tail (h.ne_nil hidle)
      rw [above_name h hidle, List.pairwise_cons]
      refine ⟨fun dir hdir => ?_, ih hbefore⟩
      rcases idle_or_name before with hall | ⟨idles, name, front, rfl, hall, hname⟩
      · obtain ⟨name, hmem, hname⟩ := ((mem_above_iff hbefore).1 hdir).exists_name
        rw [hall name hmem] at hname
        cases hname
      · rw [above_idles hbefore hall] at hdir
        rw [directoryOf_name hbefore hall hname]
        exact length_lt_of_isAbove hbefore.of_append ((mem_above_iff hbefore.of_append).1 hdir)

/-- It goes from the longest ancestor to the shortest. -/
theorem pairwise_ancestors (h : isAbsolute path = true) :
    (ancestors path).Pairwise fun longer dir => dir.length < longer.length := by
  have hrooted := rooted_pieces h
  rw [ancestors, if_pos h, List.pairwise_cons]
  refine ⟨fun dir hdir => ?_, pairwise_above hrooted⟩
  have hlt := length_lt_of_isAbove hrooted ((mem_above_iff hrooted).1 hdir)
  rwa [textOf_pieces] at hlt

end ModuleHost.Path
