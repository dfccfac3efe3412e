import ModuleHost.Proofs.FileTree.Entries
import ModuleHost.Proofs.FileTree.Places

/-!
# Trees with files on top

`Overlaid base ls t` says that the tree `t` has come from `base` by making files at the locations
`ls`, one after the other, each where nothing was.  A file leads nowhere, so a path that leads to
none of these files leads in `t` where it leads in `base`; and taking the files out in the opposite
order gives back `base` itself.
-/

namespace ModuleHost.FileTree

/-- The tree is `base` with files on top, the one made last at the first of the locations. -/
inductive Overlaid (base : FileTree) : List Location → FileTree → Prop
  | bare : Overlaid base [] base
  | made {ls : List Location} {t : FileTree} {l : Location} (h : Overlaid base ls t)
      (hv : t.entryAt? l = none) (contents : List UInt8) :
      Overlaid base (l :: ls) (t.insert l (.file contents))

/-- A way that goes on begins at a directory. -/
theorem Way.start {t : FileTree} {purpose : Purpose} {place : Place} {links : Nat} {here : Location}
    {pieces : List String} (h : Way t purpose place links here pieces) :
    pieces = [] ∧ place = .present here ∨ t.entryAt? here = some .directory := by
  cases h with
  | nil heq => exact Or.inl ⟨rfl, heq⟩
  | idle hd | parent hd | link hd | entry hd | vacant hd => exact Or.inr hd

namespace Overlaid

variable {base t : FileTree} {ls : List Location} {l here cwd : Location} {e : Entry}
  {purpose : Purpose} {links : Nat} {path : String} {pieces : List String} {place : Place}

/-! ### Entries -/

theorem eq_base (h : Overlaid base [] t) : t = base := by
  cases h
  rfl

theorem keeps (h : Overlaid base ls t) : Keeps base t := by
  induction h with
  | bare => exact fun _ _ he => he
  | @made ls t l h hv contents ih =>
    intro l' e he
    rw [entryAt?_insert hv, if_neg, ih l' e he]
    rintro rfl
    rw [ih l' e he] at hv
    cases hv

theorem entryAt?_of_notMem (h : Overlaid base ls t) (hl : l ∉ ls) :
    t.entryAt? l = base.entryAt? l := by
  induction h with
  | bare => rfl
  | made h hv contents ih =>
    rw [List.mem_cons, not_or] at hl
    rw [entryAt?_insert hv, if_neg hl.1, ih hl.2]

theorem exists_file_of_mem (h : Overlaid base ls t) (hl : l ∈ ls) :
    ∃ contents, t.entryAt? l = some (.file contents) := by
  induction h with
  | bare => cases hl
  | @made ls t l' h hv contents ih =>
    rw [entryAt?_insert hv]
    by_cases heq : l = l'
    · exact ⟨contents, if_pos heq⟩
    · rw [if_neg heq]
      exact ih ((List.mem_cons.1 hl).resolve_left heq)

/-- What is no file is no file on top. -/
theorem entryAt?_base (h : Overlaid base ls t) (he : t.entryAt? l = some e)
    (hfile : ∀ contents, e ≠ .file contents) : base.entryAt? l = some e := by
  rw [← h.entryAt?_of_notMem, he]
  intro hl
  obtain ⟨contents, hcontents⟩ := h.exists_file_of_mem hl
  rw [he] at hcontents
  exact hfile contents (Option.some.inj hcontents)

theorem directory (h : Overlaid base ls t) (he : t.entryAt? l = some .directory) :
    base.entryAt? l = some .directory := h.entryAt?_base he (by simp)

theorem vacant (h : Overlaid base ls t) (he : t.entryAt? l = none) : base.entryAt? l = none := by
  cases hb : base.entryAt? l with
  | none => rfl
  | some e =>
    rw [h.keeps l e hb] at he
    cases he

/-- The file made last is overwritten. -/
theorem replace (h : Overlaid base (l :: ls) t) (contents : List UInt8) :
    Overlaid base (l :: ls) (t.replace l (.file contents)) := by
  cases h with
  | made h hv _ =>
    rw [replace_insert hv]
    exact .made h hv contents

/-- The file made last is taken out. -/
theorem erase (h : Overlaid base (l :: ls) t) : Overlaid base ls (t.erase l) := by
  cases h with
  | made h hv _ =>
    rw [erase_insert hv]
    exact h

/-! ### Paths -/

/-- A path that leads to none of the files on top leads to the same place without them. -/
theorem follow (h : Overlaid base ls t) (hf : t.follow purpose links here pieces = .ok place)
    (hl : ∀ l ∈ ls, place ≠ .present l) :
    base.follow purpose links here pieces = .ok place := by
  induction way_of_follow hf with
  | nil heq => rw [FileTree.follow, heq]
  | idle hd hi hway ih =>
    rw [follow_idle hd hi] at hf
    rw [follow_idle (h.directory hd) hi]
    exact ih hf
  | parent hd hway ih =>
    rw [follow_parent hd] at hf
    rw [follow_parent (h.directory hd)]
    exact ih hf
  | link hd hn he hway ih =>
    rw [follow_link hd hn he] at hf
    rw [follow_link (h.directory hd) hn (h.entryAt?_base he (by simp))]
    exact ih hf
  | @entry links here piece rest e hd hn hlink he hway ih =>
    rw [follow_entry hd hn hlink he] at hf
    have hnot : here ++ [piece] ∉ ls := by
      intro hmem
      rcases hway.start with ⟨-, hplace⟩ | hdirectory
      · exact hl _ hmem hplace
      · obtain ⟨contents, hfile⟩ := h.exists_file_of_mem hmem
        rw [hdirectory] at hfile
        cases hfile
    have hbase : base.entryAt? (here ++ [piece]) = some e := by
      rw [← h.entryAt?_of_notMem hnot, he]
    rw [follow_entry (h.directory hd) hn hlink hbase]
    exact ih hf
  | vacant hd hn he heq =>
    rw [follow_name (h.directory hd) hn, h.vacant he, heq]
    rfl

theorem locationFor (h : Overlaid base ls t) (hf : t.locationFor purpose cwd path = .ok l)
    (hl : l ∉ ls) : base.locationFor purpose cwd path = .ok l := by
  rw [locationFor_eq_ok_iff] at hf ⊢
  rw [place_eq_follow hf base]
  rw [place_eq_follow hf t] at hf
  refine h.follow hf ?_
  rintro l' hmem heq
  exact hl (Place.present.inj heq ▸ hmem)

/-- Opening a path that leads to none of the files on top gives the same entry without them. -/
theorem openEntry (h : Overlaid base ls t)
    (hl : ∀ l ∈ ls, t.locationFor .read cwd path ≠ .ok l) :
    t.openEntry cwd path = .ok e ↔ base.openEntry cwd path = .ok e := by
  constructor
  · intro ho
    obtain ⟨l, hf, he⟩ := openEntry_eq_ok_iff.1 ho
    have hnot : l ∉ ls := fun hmem => hl l hmem hf
    rw [h.entryAt?_of_notMem hnot] at he
    exact openEntry_eq_ok_iff.2 ⟨l, h.locationFor hf hnot, he⟩
  · exact openEntry_mono h.keeps

/-- The directories that lead to a new file are those of the tree below. -/
theorem inDirectory {directory : Location} (h : Overlaid base ls t)
    (hd : InDirectory t cwd path directory) : InDirectory base cwd path directory where
  notEmpty := hd.notEmpty
  noNul := hd.noNul
  short := hd.short
  leads := by
    refine h.follow hd.leads ?_
    rintro l hl heq
    obtain ⟨contents, hfile⟩ := h.exists_file_of_mem hl
    rw [← Place.present.inj heq, hd.isDirectory] at hfile
    cases hfile
  isDirectory := h.directory hd.isDirectory
  nameShort := hd.nameShort
  notIdle := hd.notIdle
  notParent := hd.notParent

end Overlaid

end ModuleHost.FileTree
