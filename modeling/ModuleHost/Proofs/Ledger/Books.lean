import ModuleHost.Proofs.Ledger.Basic
import Mathlib.Data.List.Induction
import Mathlib.Data.List.Nodup

/-!
# Keeping the books of a run

Seen from the ledger, a run is a row of three events: `require` starts to dispatch a key, and later
that dispatch is completed or fails.  Dispatches nest, so the keys underway form a stack, and only
the latest one can end.  `Books.Moves` is the ledger discipline by itself: which events may follow
each other and what they do to the ledger.  That the machine obeys it is shown elsewhere; here
stands what follows from it.

* `Moves.started_balanced`: a key is started only when every earlier start of it has ended.
* `Moves.count_completed_le_one`: no key is completed twice.
* `Moves.count_started_le_one`: if failures are not forgotten, no key is started twice.
* `Moves.settled`: if failures are forgotten, the keys underway are the end of the loading list, in
  the order in which they were started.
-/

namespace ModuleHost

inductive DispatchEvent where
  | started (key : String)
  | completed (key : String)
  | failed (key : String)
deriving DecidableEq, Repr

/-- A ledger, and the keys whose dispatch is underway, the latest first. -/
structure Books where
  ledger : Ledger
  underway : List String

namespace Books

/-- One event and what it does to the books. -/
inductive Move (retry : Bool) : Books → DispatchEvent → Books → Prop
  | started {l : Ledger} {keys : List String} {key : String} (h : l.state key = .fresh) :
      Move retry ⟨l, keys⟩ (.started key) ⟨l.markLoading key, key :: keys⟩
  | completed {l : Ledger} {keys : List String} {key : String} :
      Move retry ⟨l, key :: keys⟩ (.completed key) ⟨l.completed (some key), keys⟩
  | failed {l : Ledger} {keys : List String} {key : String} :
      Move retry ⟨l, key :: keys⟩ (.failed key) ⟨l.abandoned retry (some key), keys⟩

inductive Moves (retry : Bool) : Books → List DispatchEvent → Books → Prop
  | refl (b : Books) : Moves retry b [] b
  | tail {b b' b'' : Books} {log : List DispatchEvent} {e : DispatchEvent}
      (h : Moves retry b log b') (hm : Move retry b' e b'') : Moves retry b (log ++ [e]) b''

variable {retry : Bool} {b b' b'' : Books} {log log' : List DispatchEvent}

theorem Moves.single {e : DispatchEvent} (h : Move retry b e b') : Moves retry b [e] b' :=
  .tail (.refl b) h

theorem Moves.append (h : Moves retry b log b') (h' : Moves retry b' log' b'') :
    Moves retry b (log ++ log') b'' := by
  induction h' with
  | refl => rwa [List.append_nil]
  | tail _ hm ih =>
    rw [← List.append_assoc]
    exact .tail ih hm

/-- Where nothing happens, the books stay as they are. -/
theorem Moves.eq_of_nil (h : Moves retry b [] b') : b' = b := by
  generalize hl : ([] : List DispatchEvent) = l at h
  cases h with
  | refl => rfl
  | tail h hm => exact absurd hl.symm (by simp)

/-- The last event of a row. -/
theorem Moves.last {e : DispatchEvent} (h : Moves retry b (log ++ [e]) b'') :
    ∃ b', Moves retry b log b' ∧ Move retry b' e b'' := by
  generalize hl : log ++ [e] = l at h
  cases h with
  | refl => exact absurd hl (by simp)
  | tail h hm =>
    obtain ⟨rfl, rfl⟩ := List.append_singleton_inj.1 hl
    exact ⟨_, h, hm⟩

theorem Moves.of_append (h : Moves retry b (log ++ log') b'') :
    ∃ b', Moves retry b log b' ∧ Moves retry b' log' b'' := by
  induction log' using List.reverseRecOn generalizing b'' with
  | nil => exact ⟨b'', by rwa [List.append_nil] at h, .refl b''⟩
  | append_singleton log' e ih =>
    rw [← List.append_assoc] at h
    obtain ⟨b₁, h, hm⟩ := h.last
    obtain ⟨b', h₁, h₂⟩ := ih h
    exact ⟨b', h₁, .tail h₂ hm⟩

/-! ### What every row of events keeps -/

/-- Every key underway stands in the ledger as being loaded, and no key is underway twice. -/
structure Consistent (b : Books) : Prop where
  nodup : b.underway.Nodup
  loading : ∀ key ∈ b.underway, key ∈ b.ledger.loading.entries
  notLoaded : ∀ key ∈ b.underway, key ∉ b.ledger.loaded.entries

theorem consistent_nil (l : Ledger) : Consistent ⟨l, []⟩ where
  nodup := List.nodup_nil
  loading _ h := absurd h List.not_mem_nil
  notLoaded _ h := absurd h List.not_mem_nil

theorem Consistent.move {e : DispatchEvent} (hb : Consistent b) (h : Move retry b e b') :
    Consistent b' := by
  obtain ⟨hnodup, hloading, hnot⟩ := hb
  cases h with
  | @started l keys key hf =>
    rw [Ledger.state_eq_fresh_iff] at hf
    refine ⟨List.nodup_cons.2 ⟨fun hk => hf.2 (hloading key hk), hnodup⟩, ?_, ?_⟩
    · intro other ho
      refine (PathSet.mem_insert _ _ _).2 ?_
      rcases List.mem_cons.1 ho with he | hm
      · exact Or.inr he
      · exact Or.inl (hloading other hm)
    · intro other ho
      rcases List.mem_cons.1 ho with he | hm
      · exact he ▸ hf.1
      · exact hnot other hm
  | @completed l keys key =>
    obtain ⟨hk, hnodup⟩ := List.nodup_cons.1 hnodup
    refine ⟨hnodup, ?_, ?_⟩
    · intro other ho
      refine (PathSet.mem_erase _ _ _).2 ⟨hloading other (List.mem_cons_of_mem _ ho), ?_⟩
      exact fun he => hk (he ▸ ho)
    · intro other ho hl
      rcases (PathSet.mem_insert _ _ _).1 hl with hm | he
      · exact hnot other (List.mem_cons_of_mem _ ho) hm
      · exact hk (he ▸ ho)
  | @failed l keys key =>
    obtain ⟨hk, hnodup⟩ := List.nodup_cons.1 hnodup
    cases retry with
    | false =>
      exact ⟨hnodup, fun other ho => hloading other (List.mem_cons_of_mem _ ho),
        fun other ho => hnot other (List.mem_cons_of_mem _ ho)⟩
    | true =>
      refine ⟨hnodup, ?_, fun other ho => hnot other (List.mem_cons_of_mem _ ho)⟩
      intro other ho
      refine (PathSet.mem_erase _ _ _).2 ⟨hloading other (List.mem_cons_of_mem _ ho), ?_⟩
      exact fun he => hk (he ▸ ho)

theorem Consistent.moves (hb : Consistent b) (h : Moves retry b log b') : Consistent b' := by
  induction h with
  | refl => exact hb
  | tail _ hm ih => exact ih.move hm

/-- What has been started is underway or has ended. -/
theorem Moves.balance (h : Moves retry b log b') (key : String) :
    b.underway.count key + log.count (.started key)
      = b'.underway.count key + log.count (.completed key) + log.count (.failed key) := by
  induction h with
  | refl => simp
  | tail _ hm ih =>
    rw [List.count_append, List.count_append, List.count_append]
    cases hm with
    | @started l keys other _ =>
      by_cases he : other = key
      · subst he
        simp at ih ⊢
        omega
      · simp [he] at ih ⊢
        omega
    | @completed l keys other =>
      by_cases he : other = key
      · subst he
        simp at ih ⊢
        omega
      · simp [he] at ih ⊢
        omega
    | @failed l keys other =>
      by_cases he : other = key
      · subst he
        simp at ih ⊢
        omega
      · simp [he] at ih ⊢
        omega

theorem Move.loaded_prefix {e : DispatchEvent} (h : Move retry b e b') :
    b.ledger.loaded.entries <+: b'.ledger.loaded.entries := by
  cases h with
  | started => exact List.prefix_rfl
  | completed => exact PathSet.prefix_insert _ _
  | failed => cases retry <;> exact List.prefix_rfl

/-- What has been loaded stays loaded, in its place. -/
theorem Moves.loaded_prefix (h : Moves retry b log b') :
    b.ledger.loaded.entries <+: b'.ledger.loaded.entries := by
  induction h with
  | refl => exact List.prefix_rfl
  | tail _ hm ih => exact ih.trans hm.loaded_prefix

theorem Moves.mem_loaded_of_completed (h : Moves retry b log b') {key : String}
    (hk : .completed key ∈ log) : key ∈ b'.ledger.loaded.entries := by
  induction h with
  | refl => exact absurd hk List.not_mem_nil
  | tail _ hm ih =>
    rcases List.mem_append.1 hk with hlog | he
    · exact hm.loaded_prefix.subset (ih hlog)
    · cases List.mem_singleton.1 he
      cases hm
      exact (PathSet.mem_insert _ _ _).2 (Or.inr rfl)

/-! ### Starting and completing -/

/-- A key is started only when every earlier start of it has ended. -/
theorem Moves.started_balanced (hb : Consistent b) (hu : b.underway = []) {key : String}
    {after : List DispatchEvent} (h : Moves retry b (log ++ .started key :: after) b') :
    log.count (.started key) = log.count (.completed key) + log.count (.failed key) := by
  rw [List.append_cons] at h
  obtain ⟨b₂, h, -⟩ := h.of_append
  obtain ⟨b₁, h, hm⟩ := h.last
  have hkey : key ∉ b₁.underway := by
    intro hk
    have hloading := (hb.moves h).loading key hk
    cases hm with
    | started hf => exact ((Ledger.state_eq_fresh_iff _ _).1 hf).2 hloading
  have hbalance := h.balance key
  rw [hu, List.count_nil, List.count_eq_zero_of_not_mem hkey] at hbalance
  omega

/-- No key is completed twice. -/
theorem Moves.count_completed_le_one (hb : Consistent b) (h : Moves retry b log b')
    (key : String) : log.count (.completed key) ≤ 1 := by
  induction h with
  | refl => exact Nat.zero_le 1
  | @tail b' b'' log e h hm ih =>
    rw [List.count_append, List.count_singleton]
    split
    · next he =>
      have he : e = .completed key := by simpa using he
      subst he
      -- a key underway is not yet loaded, so it has not been completed before
      have hnot : DispatchEvent.completed key ∉ log := by
        intro hk
        have hloaded := h.mem_loaded_of_completed hk
        have hnotLoaded := (hb.moves h).notLoaded key
        cases hm with
        | completed => exact hnotLoaded List.mem_cons_self hloaded
      have hcount := List.count_eq_zero_of_not_mem hnot
      omega
    · exact ih

/-- A key that the ledger knows stays known when failures are not forgotten. -/
theorem Move.known {e : DispatchEvent} (h : Move false b e b') {key : String}
    (hk : b.ledger.state key ≠ .fresh) : b'.ledger.state key ≠ .fresh := by
  rw [ne_eq, Ledger.state_eq_fresh_iff, not_and_or, not_not, not_not] at hk ⊢
  cases h with
  | started => exact hk.imp_right fun hm => (PathSet.mem_insert _ _ _).2 (Or.inl hm)
  | failed => exact hk
  | @completed l keys other =>
    rcases hk with hm | hm
    · exact Or.inl ((PathSet.mem_insert _ _ _).2 (Or.inl hm))
    · by_cases he : key = other
      · exact Or.inl ((PathSet.mem_insert _ _ _).2 (Or.inr he))
      · exact Or.inr ((PathSet.mem_erase _ _ _).2 ⟨hm, he⟩)

theorem Moves.known (h : Moves false b log b') {key : String}
    (hk : b.ledger.state key ≠ .fresh) : b'.ledger.state key ≠ .fresh := by
  induction h with
  | refl => exact hk
  | tail _ hm ih => exact hm.known ih

theorem Moves.known_of_started (h : Moves false b log b') {key : String}
    (hk : .started key ∈ log) : b'.ledger.state key ≠ .fresh := by
  induction h with
  | refl => exact absurd hk List.not_mem_nil
  | tail _ hm ih =>
    rcases List.mem_append.1 hk with hlog | he
    · exact hm.known (ih hlog)
    · cases List.mem_singleton.1 he
      cases hm
      rw [ne_eq, Ledger.state_eq_fresh_iff, not_and_or, not_not, not_not]
      exact Or.inr ((PathSet.mem_insert _ _ _).2 (Or.inr rfl))

/-- If failures are not forgotten, no key is started twice. -/
theorem Moves.count_started_le_one (h : Moves false b log b') (key : String) :
    log.count (.started key) ≤ 1 := by
  induction h with
  | refl => exact Nat.zero_le 1
  | @tail b' b'' log e h hm ih =>
    rw [List.count_append, List.count_singleton]
    split
    · next he =>
      have he : e = .started key := by simpa using he
      subst he
      have hnot : DispatchEvent.started key ∉ log := by
        intro hk
        have hknown := h.known_of_started hk
        cases hm with
        | started hf => exact hknown hf
      have hcount := List.count_eq_zero_of_not_mem hnot
      omega
    · exact ih

/-! ### Forgetting failures -/

/-- No path stands in the ledger twice, and behind the paths `base` the keys underway end its
loading list, in the order in which they were started. -/
structure Settled (base : List String) (b : Books) : Prop where
  tidy : b.ledger.Tidy
  loading : b.ledger.loading.entries = base ++ b.underway.reverse

/-- The latest key underway is the last one of the loading list and stands nowhere else. -/
theorem Settled.latest {base keys : List String} {l : Ledger} {key : String}
    (hs : Settled base ⟨l, key :: keys⟩) :
    (l.loading.erase key).entries = base ++ keys.reverse ∧ key ∉ l.loaded.entries := by
  obtain ⟨htidy, hloading⟩ := hs
  obtain ⟨-, hnodup, hdisjoint⟩ := l.tidy_iff.1 htidy
  have hentries : l.loading.entries = (base ++ keys.reverse) ++ [key] := by
    rw [hloading, List.reverse_cons, List.append_assoc]
  refine ⟨PathSet.erase_of_eq_append hentries ?_, fun hk => hdisjoint key ⟨hk, ?_⟩⟩
  · rw [hentries] at hnodup
    exact fun hk => (List.nodup_append.1 hnodup).2.2 key hk key (List.mem_singleton.2 rfl) rfl
  · rw [hentries]
    exact List.mem_append_right _ (List.mem_singleton.2 rfl)

theorem Settled.move {base : List String} {e : DispatchEvent} (hs : Settled base b)
    (h : Move true b e b') : Settled base b' := by
  cases h with
  | @started l keys key hf =>
    obtain ⟨htidy, hloading⟩ := hs
    obtain ⟨hloaded, hfresh⟩ := (Ledger.state_eq_fresh_iff _ _).1 hf
    have hentries : (l.markLoading key).loading.entries = l.loading.entries ++ [key] :=
      PathSet.insert_of_notMem hfresh
    refine ⟨?_, ?_⟩
    · show (l.loaded.entries ++ (l.markLoading key).loading.entries).Nodup
      rw [hentries, ← List.append_assoc]
      refine List.Nodup.append htidy (List.nodup_singleton key) ?_
      rw [List.disjoint_singleton, List.mem_append]
      exact not_or.2 ⟨hloaded, hfresh⟩
    · rw [hentries, hloading, List.reverse_cons, List.append_assoc]
  | @completed l keys key =>
    obtain ⟨herase, hloaded⟩ := hs.latest
    refine ⟨?_, herase⟩
    have htidy := Ledger.tidy_markFailed hs.tidy key
    have hkey : key ∉ (l.markFailed key).loading.entries := by
      intro hk
      exact ((PathSet.mem_erase _ _ _).1 hk).2 rfl
    show ((l.loaded.insert key).entries ++ (l.markFailed key).loading.entries).Nodup
    rw [PathSet.insert_of_notMem hloaded, List.append_assoc, List.singleton_append,
      List.perm_middle.nodup_iff]
    refine List.nodup_cons.2 ⟨?_, htidy⟩
    rw [List.mem_append]
    exact not_or.2 ⟨hloaded, hkey⟩
  | @failed l keys key => exact ⟨Ledger.tidy_markFailed hs.tidy key, hs.latest.1⟩

theorem Moves.settled {base : List String} (hs : Settled base b) (h : Moves true b log b') :
    Settled base b' := by
  induction h with
  | refl => exact hs
  | tail _ hm ih => exact ih.move hm

end Books

end ModuleHost
