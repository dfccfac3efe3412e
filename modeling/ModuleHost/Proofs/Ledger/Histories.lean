import ModuleHost.Proofs.Ledger.Basic
import Mathlib.Data.Finset.Insert
import Mathlib.Data.Finset.Erase
import Mathlib.Data.List.Induction
import Mathlib.Data.List.Nodup

/-!
# Histories of path sets and ledgers

A path set can be kept twice: as the list of its members in order, and as an index in which members
are looked up.  Here both are kept, every operation changes the one and the other, and whatever has
been done since the sets were empty, in any order and with any paths, the two agree
(`IndexedSet.Chronicled`, `IndexedLedger.Chronicled`).  What a set holds then is told by the row of
operations alone: a path is in if the latest operation on it was an insertion, and it stands where
the insertion that brought it in has put it.  Without their indexes the sets are the path sets of
the ledger.
-/

namespace ModuleHost

/-! ### Sets with an index -/

/-- A path set with an index of its members. -/
structure IndexedSet where
  order : List String := []
  index : Finset String := ∅

namespace IndexedSet

/-- Adds `path` behind the others unless the index has it, and says whether it was added. -/
def insert (s : IndexedSet) (path : String) : Bool × IndexedSet :=
  if path ∈ s.index then (false, s)
  else (true, { order := s.order ++ [path], index := Insert.insert path s.index })

def remove (s : IndexedSet) (path : String) : Bool × IndexedSet :=
  if path ∈ s.index then
    (true, { order := s.order.filter (· ≠ path), index := s.index.erase path })
  else (false, s)

def plain (s : IndexedSet) : PathSet := { entries := s.order }

/-- The order is one of the very paths that the index has. -/
structure Coherent (s : IndexedSet) : Prop where
  nodup : s.order.Nodup
  index : ∀ path, path ∈ s.order ↔ path ∈ s.index

theorem coherent_empty : Coherent {} := ⟨List.nodup_nil, by simp⟩

variable {s : IndexedSet}

theorem Coherent.mem_index (h : s.Coherent) (path : String) :
    path ∈ s.index ↔ s.plain.contains path = true :=
  (h.index path).symm.trans (PathSet.contains_iff s.plain path).symm

theorem Coherent.insert (h : s.Coherent) (path : String) : (s.insert path).2.Coherent := by
  unfold IndexedSet.insert
  split
  · exact h
  next hnew =>
  rw [← h.index] at hnew
  constructor
  · exact List.nodup_append.2 ⟨h.nodup, List.nodup_singleton path, by grind⟩
  · intro other
    simp only [List.mem_append, List.mem_singleton, Finset.mem_insert, h.index]
    exact or_comm

theorem Coherent.remove (h : s.Coherent) (path : String) : (s.remove path).2.Coherent := by
  unfold IndexedSet.remove
  split
  · refine ⟨h.nodup.filter _, fun other => ?_⟩
    simp only [List.mem_filter, decide_eq_true_eq, Finset.mem_erase, h.index]
    exact and_comm
  · exact h

theorem Coherent.plain_insert (h : s.Coherent) (path : String) :
    (s.insert path).2.plain = s.plain.insert path := by
  unfold IndexedSet.insert PathSet.insert
  by_cases hp : path ∈ s.index
  · rw [if_pos hp, if_pos ((h.mem_index path).1 hp)]
  · rw [if_neg hp, if_neg fun hc => hp ((h.mem_index path).2 hc)]
    rfl

theorem Coherent.plain_remove (h : s.Coherent) (path : String) :
    (s.remove path).2.plain = s.plain.erase path := by
  unfold IndexedSet.remove PathSet.erase
  by_cases hp : path ∈ s.index
  · rw [if_pos hp, if_pos ((h.mem_index path).1 hp)]
    rfl
  · rw [if_neg hp, if_neg fun hc => hp ((h.mem_index path).2 hc)]

end IndexedSet

/-! ### What a row of operations says -/

inductive SetOperation where
  | insert (path : String)
  | remove (path : String)
deriving DecidableEq, Repr

namespace SetOperation

def path : SetOperation → String
  | insert path | remove path => path

/-- Whether the operation changes the set, and the set after it. -/
def apply : SetOperation → IndexedSet → Bool × IndexedSet
  | insert path, s => s.insert path
  | remove path, s => s.remove path

variable {ops : List SetOperation} {op : SetOperation} {p q : String} {i j : Nat}

/-- The latest operation on the path is an insertion. -/
def Holds (ops : List SetOperation) (p : String) : Prop :=
  (ops.filter fun op => op.path = p).getLast? = some (insert p)

def EntersAt (ops : List SetOperation) (p : String) (i : Nat) : Prop :=
  ops[i]? = some (insert p) ∧ ¬ Holds (ops.take i) p

/-- The operation at the position is the latest that brings the path in. -/
def LatestEntry (ops : List SetOperation) (p : String) (i : Nat) : Prop :=
  EntersAt ops p i ∧ ∀ j, EntersAt ops p j → j ≤ i

theorem not_holds_nil (p : String) : ¬ Holds [] p := nofun

theorem holds_concat :
    Holds (ops ++ [op]) p ↔ if op.path = p then op = insert p else Holds ops p := by
  unfold Holds
  rw [List.filter_append]
  by_cases h : op.path = p
  · rw [if_pos h, List.filter_cons_of_pos (by simpa using h), List.filter_nil,
      List.getLast?_concat, Option.some.injEq]
  · rw [if_neg h, List.filter_cons_of_neg (by simpa using h), List.filter_nil, List.append_nil]

theorem EntersAt.lt (h : EntersAt ops p i) : i < ops.length := (List.getElem?_eq_some_iff.1 h.1).1

theorem entersAt_concat : EntersAt (ops ++ [op]) p i
    ↔ EntersAt ops p i ∨ i = ops.length ∧ op = insert p ∧ ¬ Holds ops p := by
  unfold EntersAt
  rcases Nat.lt_trichotomy i ops.length with hlt | heq | hgt
  · rw [List.getElem?_append_left hlt, List.take_append_of_le_length (Nat.le_of_lt hlt)]
    exact ⟨Or.inl, fun h => h.resolve_right fun heq => absurd heq.1 (Nat.ne_of_lt hlt)⟩
  · subst heq
    rw [List.getElem?_concat_length, List.take_left, List.getElem?_eq_none (Nat.le_refl _)]
    simp
  · rw [List.getElem?_eq_none (by rw [List.length_append, List.length_singleton]; omega),
      List.getElem?_eq_none (Nat.le_of_lt hgt)]
    simp [Nat.ne_of_gt hgt]

/-- An insertion that brings its path in is the latest of that path. -/
theorem latestEntry_concat_of_enters (hop : op = insert p) (hnew : ¬ Holds ops p) :
    LatestEntry (ops ++ [op]) p i ↔ i = ops.length := by
  have hlast : EntersAt (ops ++ [op]) p ops.length := entersAt_concat.2 (Or.inr ⟨rfl, hop, hnew⟩)
  have hle : ∀ {j}, EntersAt (ops ++ [op]) p j → j ≤ ops.length := fun h => by
    have hlt := h.lt
    rw [List.length_append, List.length_singleton] at hlt
    exact Nat.lt_succ_iff.1 hlt
  constructor
  · exact fun h => Nat.le_antisymm (hle h.1) (h.2 _ hlast)
  · rintro rfl
    exact ⟨hlast, fun j hj => hle hj⟩

/-- Every other operation leaves the latest entry of a path where it was. -/
theorem latestEntry_concat_of_not_enters (h : ¬ (op = insert p ∧ ¬ Holds ops p)) :
    LatestEntry (ops ++ [op]) p i ↔ LatestEntry ops p i := by
  have hsame : ∀ j, EntersAt (ops ++ [op]) p j ↔ EntersAt ops p j := fun j =>
    entersAt_concat.trans ⟨fun hj => hj.resolve_right fun hr => h hr.2, Or.inl⟩
  simp only [LatestEntry, hsame]

def applyPlain : SetOperation → PathSet → PathSet
  | insert path, s => s.insert path
  | remove path, s => s.erase path

end SetOperation

namespace IndexedSet

open SetOperation

variable {ops : List SetOperation} {op : SetOperation} {s : IndexedSet}

theorem Coherent.apply (h : s.Coherent) (op : SetOperation) : (op.apply s).2.Coherent := by
  cases op with
  | insert path => exact h.insert path
  | remove path => exact h.remove path

theorem Coherent.plain_apply (h : s.Coherent) (op : SetOperation) :
    (op.apply s).2.plain = op.applyPlain s.plain := by
  cases op with
  | insert path => exact h.plain_insert path
  | remove path => exact h.plain_remove path

/-- An operation says of its path whether it is in. -/
theorem Coherent.mem_apply (h : s.Coherent) (op : SetOperation) (p : String) :
    p ∈ (op.apply s).2.order ↔ if op.path = p then op = .insert p else p ∈ s.order := by
  have hplain : p ∈ (op.apply s).2.order ↔ p ∈ (op.applyPlain s.plain).entries := by
    rw [← h.plain_apply op]
    rfl
  rw [hplain]
  cases op with
  | insert path =>
    refine (PathSet.mem_insert s.plain path p).trans ?_
    by_cases hp : path = p
    · simp [SetOperation.path, hp]
    · simp [SetOperation.path, hp, Ne.symm hp, plain]
  | remove path =>
    refine (PathSet.mem_erase s.plain path p).trans ?_
    by_cases hp : path = p
    · simp [SetOperation.path, hp]
    · simp [SetOperation.path, hp, Ne.symm hp, plain]

/-- An operation says whether it has changed what it is about. -/
theorem Coherent.changes_iff (h : s.Coherent) (op : SetOperation) :
    (op.apply s).1 = true ↔ ¬ (op.path ∈ s.order ↔ op.path ∈ (op.apply s).2.order) := by
  rw [h.mem_apply, if_pos rfl, h.index]
  cases op with
  | insert path =>
    by_cases hp : path ∈ s.index
    · simp [SetOperation.apply, SetOperation.path, IndexedSet.insert, hp]
    · simp [SetOperation.apply, SetOperation.path, IndexedSet.insert, hp]
  | remove path =>
    by_cases hp : path ∈ s.index
    · simp [SetOperation.apply, SetOperation.path, IndexedSet.remove, hp]
    · simp [SetOperation.apply, SetOperation.path, IndexedSet.remove, hp]

def after (ops : List SetOperation) : IndexedSet := ops.foldl (fun s op => (op.apply s).2) {}

theorem after_concat : after (ops ++ [op]) = (op.apply (after ops)).2 := List.foldl_concat ..

theorem coherent_after (ops : List SetOperation) : (after ops).Coherent := by
  induction ops using List.reverseRecOn with
  | nil => exact coherent_empty
  | append_singleton ops op ih =>
    rw [after_concat]
    exact ih.apply op

theorem plain_after (ops : List SetOperation) :
    (after ops).plain = ops.foldl (fun s op => op.applyPlain s) {} := by
  induction ops using List.reverseRecOn with
  | nil => rfl
  | append_singleton ops op ih =>
    rw [after_concat, (coherent_after ops).plain_apply, ih, List.foldl_concat]

theorem mem_after_iff_holds (ops : List SetOperation) (p : String) :
    p ∈ (after ops).order ↔ Holds ops p := by
  induction ops using List.reverseRecOn with
  | nil => exact iff_of_false List.not_mem_nil (not_holds_nil p)
  | append_singleton ops op ih =>
    rw [after_concat, (coherent_after ops).mem_apply, holds_concat, ih]

/-- What is in has come in, and the order is that of the latest entries. -/
structure InOrder (ops : List SetOperation) : Prop where
  entered : ∀ p ∈ (after ops).order, ∃ i, LatestEntry ops p i
  sorted : (after ops).order.Pairwise fun p q =>
    ∀ i j, LatestEntry ops p i → LatestEntry ops q j → i < j

/-- Nothing comes in: what stays in the order keeps its entry. -/
theorem InOrder.of_sublist (h : InOrder ops)
    (hnew : ∀ p ∈ (after ops).order, ¬ (op = .insert p ∧ ¬ Holds ops p))
    (hsub : (after (ops ++ [op])).order.Sublist (after ops).order) : InOrder (ops ++ [op]) where
  entered p hp := by
    obtain ⟨i, hi⟩ := h.entered p (hsub.subset hp)
    exact ⟨i, (latestEntry_concat_of_not_enters (hnew p (hsub.subset hp))).2 hi⟩
  sorted := by
    refine (h.sorted.sublist hsub).imp_of_mem fun hp hq hpq i j hi hj => hpq i j ?_ ?_
    · exact (latestEntry_concat_of_not_enters (hnew _ (hsub.subset hp))).1 hi
    · exact (latestEntry_concat_of_not_enters (hnew _ (hsub.subset hq))).1 hj

/-- A path comes in behind all others. -/
theorem InOrder.of_concat (h : InOrder ops) {path : String} (hnew : ¬ Holds ops path)
    (horder : (after (ops ++ [.insert path])).order = (after ops).order ++ [path]) :
    InOrder (ops ++ [.insert path]) := by
  have hold : ∀ p ∈ (after ops).order, ¬ (SetOperation.insert path = .insert p ∧ ¬ Holds ops p) :=
    fun p hp hc => hc.2 ((mem_after_iff_holds ops p).1 hp)
  constructor
  · intro p hp
    rw [horder, List.mem_append, List.mem_singleton] at hp
    rcases hp with hp | rfl
    · obtain ⟨i, hi⟩ := h.entered p hp
      exact ⟨i, (latestEntry_concat_of_not_enters (hold p hp)).2 hi⟩
    · exact ⟨ops.length, (latestEntry_concat_of_enters rfl hnew).2 rfl⟩
  · rw [horder]
    refine List.pairwise_append.2 ⟨?_, List.pairwise_singleton _ path, ?_⟩
    · refine h.sorted.imp_of_mem fun hp hq hpq i j hi hj => hpq i j ?_ ?_
      · exact (latestEntry_concat_of_not_enters (hold _ hp)).1 hi
      · exact (latestEntry_concat_of_not_enters (hold _ hq)).1 hj
    · intro p hp q hq i j hi hj
      obtain rfl := List.mem_singleton.1 hq
      rw [latestEntry_concat_of_not_enters (hold p hp)] at hi
      rw [latestEntry_concat_of_enters rfl hnew] at hj
      exact hj ▸ hi.1.lt

theorem inOrder (ops : List SetOperation) : InOrder ops := by
  induction ops using List.reverseRecOn with
  | nil => exact ⟨nofun, List.Pairwise.nil⟩
  | append_singleton ops op ih =>
    have hin : ∀ p, p ∈ (after ops).index ↔ Holds ops p := fun p =>
      ((coherent_after ops).index p).symm.trans (mem_after_iff_holds ops p)
    cases op with
    | insert path =>
      by_cases hp : path ∈ (after ops).index
      · refine ih.of_sublist (fun p hp' hc => hc.2 ((mem_after_iff_holds ops p).1 hp')) ?_
        rw [after_concat, SetOperation.apply, insert, if_pos hp]
      · refine ih.of_concat (fun hc => hp ((hin path).2 hc)) ?_
        rw [after_concat, SetOperation.apply, insert, if_neg hp]
    | remove path =>
      refine ih.of_sublist (fun p _ hc => by cases hc.1) ?_
      rw [after_concat, SetOperation.apply, remove]
      split
      · exact List.filter_sublist
      · exact List.Sublist.refl _

structure Chronicled (ops : List SetOperation) : Prop
    extends Coherent (after ops), InOrder ops where
  /-- A path is in if the latest operation on it was an insertion. -/
  holds : ∀ path, path ∈ (after ops).order ↔ Holds ops path
  /-- The next operation says whether it changes what it is about. -/
  answers : ∀ op : SetOperation, (op.apply (after ops)).1 = true
    ↔ ¬ (op.path ∈ (after ops).order ↔ op.path ∈ (after (ops ++ [op])).order)
  /-- Without its index it is the path set after the same operations. -/
  plain_eq : (after ops).plain = ops.foldl (fun s op => op.applyPlain s) {}

theorem chronicled (ops : List SetOperation) : Chronicled ops where
  toCoherent := coherent_after ops
  toInOrder := inOrder ops
  holds := mem_after_iff_holds ops
  answers op := by
    rw [after_concat]
    exact (coherent_after ops).changes_iff op
  plain_eq := plain_after ops

end IndexedSet

/-! ### Ledgers -/

structure IndexedLedger where
  loaded : IndexedSet := {}
  loading : IndexedSet := {}

namespace IndexedLedger

def state (l : IndexedLedger) (path : String) : LoadState :=
  if path ∈ l.loaded.index then .loaded
  else if path ∈ l.loading.index then .loading
  else .fresh

/-- Marks a fresh path as being loaded, and says whether it was one. -/
def checkAndMark (l : IndexedLedger) (path : String) : Bool × IndexedLedger :=
  if l.state path = .fresh then
    let (added, loading) := l.loading.insert path
    (added, { l with loading })
  else (false, l)

def markLoaded (l : IndexedLedger) (path : String) : IndexedLedger :=
  { loading := (l.loading.remove path).2, loaded := (l.loaded.insert path).2 }

def markFailed (l : IndexedLedger) (path : String) : IndexedLedger :=
  { l with loading := (l.loading.remove path).2 }

def plain (l : IndexedLedger) : Ledger := { loaded := l.loaded.plain, loading := l.loading.plain }

structure Coherent (l : IndexedLedger) : Prop where
  loaded : l.loaded.Coherent
  loading : l.loading.Coherent

variable {l : IndexedLedger}

theorem Coherent.plain_state (h : l.Coherent) (path : String) :
    l.plain.state path = l.state path := by
  simp only [state, h.loaded.mem_index, h.loading.mem_index]
  rfl

theorem Coherent.checkAndMark (h : l.Coherent) (path : String) :
    (l.checkAndMark path).2.Coherent := by
  unfold IndexedLedger.checkAndMark
  split
  · exact ⟨h.loaded, h.loading.insert path⟩
  · exact h

/-- A path that is fresh is marked, and no other one. -/
theorem Coherent.marks_iff (h : l.Coherent) (path : String) :
    (l.checkAndMark path).1 = true ↔ l.state path = .fresh := by
  unfold IndexedLedger.checkAndMark
  by_cases hfresh : l.state path = .fresh
  · have hnew : path ∉ l.loading.index := by
      rw [← h.loading.index]
      rw [← h.plain_state, Ledger.state_eq_fresh_iff] at hfresh
      exact hfresh.2
    simp [hfresh, IndexedSet.insert, hnew]
  · simp [hfresh]

theorem Coherent.plain_begin? (h : l.Coherent) (path : String) :
    l.plain.begin? path
      = if (l.checkAndMark path).1 then some (l.checkAndMark path).2.plain else none := by
  unfold Ledger.begin?
  rw [h.plain_state]
  by_cases hfresh : l.state path = .fresh
  · rw [if_pos hfresh, if_pos ((h.marks_iff path).2 hfresh), IndexedLedger.checkAndMark,
      if_pos hfresh, Ledger.markLoading]
    exact congrArg (fun loading => some { l.plain with loading })
      (h.loading.plain_insert path).symm
  · rw [if_neg hfresh, if_neg fun hc => hfresh ((h.marks_iff path).1 hc)]

end IndexedLedger

inductive LedgerOperation where
  | checkAndMark (path : String)
  | markLoaded (path : String)
  | markFailed (path : String)
deriving DecidableEq, Repr

namespace LedgerOperation

def path : LedgerOperation → String
  | checkAndMark path | markLoaded path | markFailed path => path

def apply : LedgerOperation → IndexedLedger → IndexedLedger
  | checkAndMark path, l => (l.checkAndMark path).2
  | markLoaded path, l => l.markLoaded path
  | markFailed path, l => l.markFailed path

def applyPlain : LedgerOperation → Ledger → Ledger
  | checkAndMark path, l => (l.begin? path).getD l
  | markLoaded path, l => l.markLoaded path
  | markFailed path, l => l.markFailed path

variable {l : Ledger} {op : LedgerOperation} {p : String}

theorem mem_loaded_applyPlain (l : Ledger) (op : LedgerOperation) (p : String) :
    p ∈ (op.applyPlain l).loaded.entries ↔ p ∈ l.loaded.entries ∨ op = markLoaded p := by
  cases op with
  | checkAndMark path =>
    have hsame : (applyPlain (checkAndMark path) l).loaded = l.loaded := by
      rw [applyPlain, Ledger.begin?]
      split <;> rfl
    simp [hsame]
  | markLoaded path =>
    refine (PathSet.mem_insert l.loaded path p).trans (or_congr_right ?_)
    simp [eq_comm]
  | markFailed path => simp [applyPlain, Ledger.markFailed]

theorem mem_loading_applyPlain (l : Ledger) (op : LedgerOperation) (p : String) :
    p ∈ (op.applyPlain l).loading.entries
      ↔ (p ∈ l.loading.entries ∧ op ≠ markLoaded p ∧ op ≠ markFailed p)
        ∨ op = checkAndMark p ∧ l.state p = .fresh := by
  cases op with
  | checkAndMark path =>
    by_cases hfresh : l.state path = .fresh
    · have hmark : applyPlain (checkAndMark path) l = l.markLoading path := by
        rw [applyPlain, Ledger.begin?, if_pos hfresh, Option.getD_some]
      rw [hmark]
      refine (PathSet.mem_insert l.loading path p).trans ?_
      grind
    · have hsame : applyPlain (checkAndMark path) l = l := by
        rw [applyPlain, Ledger.begin?, if_neg hfresh, Option.getD_none]
      rw [hsame]
      grind
  | markLoaded path =>
    refine (PathSet.mem_erase l.loading path p).trans ?_
    grind
  | markFailed path =>
    refine (PathSet.mem_erase l.loading path p).trans ?_
    grind

/-- What is loaded stays before what is loaded later. -/
theorem prefix_applyPlain (l : Ledger) (op : LedgerOperation) :
    l.loaded.entries <+: (op.applyPlain l).loaded.entries := by
  cases op with
  | checkAndMark path =>
    rw [applyPlain, Ledger.begin?]
    split <;> exact List.prefix_rfl
  | markLoaded path => exact PathSet.prefix_insert l.loaded path
  | markFailed path => exact List.prefix_rfl

/-- No operation takes a path into both sets. -/
theorem disjoint_applyPlain (h : ∀ path, ¬ (path ∈ l.loaded.entries ∧ path ∈ l.loading.entries))
    (op : LedgerOperation) (p : String) :
    ¬ (p ∈ (op.applyPlain l).loaded.entries ∧ p ∈ (op.applyPlain l).loading.entries) := by
  rw [mem_loaded_applyPlain, mem_loading_applyPlain, Ledger.state_eq_fresh_iff]
  have hp := h p
  grind

/-- What the ledger says of a path depends on what is in its sets. -/
theorem state_congr {l l' : Ledger} (hloaded : p ∈ l'.loaded.entries ↔ p ∈ l.loaded.entries)
    (hloading : p ∈ l'.loading.entries ↔ p ∈ l.loading.entries) : l'.state p = l.state p := by
  simp only [Ledger.state, PathSet.contains_iff, hloaded, hloading]

/-- An operation leaves the state of all other paths as it is. -/
theorem state_applyPlain_of_ne (h : op.path ≠ p) : (op.applyPlain l).state p = l.state p := by
  refine state_congr ?_ ?_
  · rw [mem_loaded_applyPlain]
    exact or_iff_left fun heq => h (by rw [heq]; rfl)
  · rw [mem_loading_applyPlain]
    constructor
    · rintro (hp | hp)
      · exact hp.1
      · exact absurd (by rw [hp.1]; rfl) h
    · exact fun hp => Or.inl ⟨hp, fun heq => h (by rw [heq]; rfl), fun heq => h (by rw [heq]; rfl)⟩

end LedgerOperation

namespace IndexedLedger

variable {l : IndexedLedger} {ops : List LedgerOperation} {op : LedgerOperation}

theorem Coherent.apply (h : l.Coherent) (op : LedgerOperation) : (op.apply l).Coherent := by
  cases op with
  | checkAndMark path => exact h.checkAndMark path
  | markLoaded path => exact ⟨h.loaded.insert path, h.loading.remove path⟩
  | markFailed path => exact ⟨h.loaded, h.loading.remove path⟩

theorem Coherent.plain_apply (h : l.Coherent) (op : LedgerOperation) :
    (op.apply l).plain = op.applyPlain l.plain := by
  cases op with
  | checkAndMark path =>
    rw [LedgerOperation.applyPlain, h.plain_begin?, LedgerOperation.apply]
    split
    · rfl
    next hmark =>
    rw [h.marks_iff] at hmark
    rw [IndexedLedger.checkAndMark, if_neg hmark, Option.getD_none]
  | markLoaded path =>
    rw [LedgerOperation.applyPlain, Ledger.markLoaded, LedgerOperation.apply, markLoaded, plain,
      h.loaded.plain_insert, h.loading.plain_remove]
    rfl
  | markFailed path =>
    rw [LedgerOperation.applyPlain, Ledger.markFailed, LedgerOperation.apply, markFailed, plain,
      h.loading.plain_remove]
    rfl

def after (ops : List LedgerOperation) : IndexedLedger := ops.foldl (fun l op => op.apply l) {}

theorem after_concat : after (ops ++ [op]) = op.apply (after ops) := List.foldl_concat ..

theorem coherent_after (ops : List LedgerOperation) : (after ops).Coherent := by
  induction ops using List.reverseRecOn with
  | nil => exact ⟨IndexedSet.coherent_empty, IndexedSet.coherent_empty⟩
  | append_singleton ops op ih =>
    rw [after_concat]
    exact ih.apply op

theorem plain_after_concat (ops : List LedgerOperation) (op : LedgerOperation) :
    (after (ops ++ [op])).plain = op.applyPlain (after ops).plain := by
  rw [after_concat, (coherent_after ops).plain_apply]

theorem plain_after (ops : List LedgerOperation) :
    (after ops).plain = ops.foldl (fun l op => op.applyPlain l) {} := by
  induction ops using List.reverseRecOn with
  | nil => rfl
  | append_singleton ops op ih => rw [plain_after_concat, ih, List.foldl_concat]

theorem disjoint_after (ops : List LedgerOperation) (path : String) :
    ¬ (path ∈ (after ops).loaded.order ∧ path ∈ (after ops).loading.order) := by
  induction ops using List.reverseRecOn generalizing path with
  | nil => exact fun h => List.not_mem_nil h.1
  | append_singleton ops op ih =>
    have hnext := LedgerOperation.disjoint_applyPlain (l := (after ops).plain) ih op path
    rwa [← plain_after_concat] at hnext

theorem prefix_after (ops more : List LedgerOperation) :
    (after ops).loaded.order <+: (after (ops ++ more)).loaded.order := by
  induction more using List.reverseRecOn with
  | nil => rw [List.append_nil]
  | append_singleton more op ih =>
    have hnext := LedgerOperation.prefix_applyPlain (after (ops ++ more)).plain op
    rw [← plain_after_concat, List.append_assoc] at hnext
    exact ih.trans hnext

structure Chronicled (ops : List LedgerOperation) : Prop extends Coherent (after ops) where
  disjoint : ∀ path, ¬ (path ∈ (after ops).loaded.order ∧ path ∈ (after ops).loading.order)
  /-- Whatever comes next, the loaded paths stay in their places. -/
  grows : ∀ more, (after ops).loaded.order <+: (after (ops ++ more)).loaded.order
  answers : ∀ path, ((after ops).checkAndMark path).1 = true
    ↔ path ∉ (after ops).loaded.order ∧ path ∉ (after ops).loading.order
  state_loaded : ∀ path, (after ops).state path = .loaded ↔ path ∈ (after ops).loaded.order
  state_loading : ∀ path, (after ops).state path = .loading ↔ path ∈ (after ops).loading.order
  state_fresh : ∀ path, (after ops).state path = .fresh
    ↔ path ∉ (after ops).loaded.order ∧ path ∉ (after ops).loading.order
  /-- The next operation changes the state of no path but its own. -/
  others : ∀ op : LedgerOperation, ∀ path, op.path ≠ path →
    (after (ops ++ [op])).state path = (after ops).state path
  /-- Without its indexes it is the ledger after the same operations, -/
  plain_eq : (after ops).plain = ops.foldl (fun l op => op.applyPlain l) {}
  /-- and that one says the same of the next path to be marked. -/
  begins : ∀ path, (after ops).plain.begin? path
    = if ((after ops).checkAndMark path).1 then some (after (ops ++ [.checkAndMark path])).plain
      else none

theorem chronicled (ops : List LedgerOperation) : Chronicled ops := by
  have hcoherent := coherent_after ops
  have hfresh : ∀ path, (after ops).state path = .fresh
      ↔ path ∉ (after ops).loaded.order ∧ path ∉ (after ops).loading.order := fun path => by
    rw [← hcoherent.plain_state]
    exact Ledger.state_eq_fresh_iff (after ops).plain path
  refine {
    toCoherent := hcoherent
    disjoint := disjoint_after ops
    grows := prefix_after ops
    answers := fun path => (hcoherent.marks_iff path).trans (hfresh path)
    state_loaded := fun path => ?_
    state_loading := fun path => ?_
    state_fresh := hfresh
    others := fun op path hne => ?_
    plain_eq := plain_after ops
    begins := fun path => ?_ }
  · rw [hcoherent.loaded.index, state]
    grind
  · have hdisjoint := disjoint_after ops path
    rw [hcoherent.loaded.index, hcoherent.loading.index] at hdisjoint
    rw [hcoherent.loading.index, state]
    grind
  · rw [← (coherent_after (ops ++ [op])).plain_state, ← hcoherent.plain_state, plain_after_concat]
    exact LedgerOperation.state_applyPlain_of_ne hne
  · rw [after_concat]
    exact hcoherent.plain_begin? path

end IndexedLedger

/-- Path sets and ledgers keep their histories, whatever is done to them: the order of a set and its
index agree, its members stand in the order in which they came in, and a ledger tells loaded paths,
paths that are being loaded and fresh ones apart. -/
theorem histories_chronicled : (∀ ops, IndexedSet.Chronicled ops)
    ∧ ∀ ops, IndexedLedger.Chronicled ops :=
  ⟨IndexedSet.chronicled, IndexedLedger.chronicled⟩

end ModuleHost
