import ModuleHost.FileTree.Basic

/-!
# Entries

What making, replacing and taking out an entry does to the others.  Taking out what has been made
where nothing was leaves the very list of entries there was before.
-/

namespace ModuleHost.FileTree

theorem ne_of_mem_of_entryAt? {t : FileTree} {l : Location} (h : t.entryAt? l = none)
    {entry : Location × Entry} (he : entry ∈ t.entries) : entry.1 ≠ l := by
  intro heq
  unfold entryAt? at h
  split at h
  · cases h
  · have := List.lookup_eq_none_iff.1 h entry he
    simp [heq] at this

/-- Taking out what is not there changes nothing. -/
theorem erase_of_entryAt? {t : FileTree} {l : Location} (h : t.entryAt? l = none) :
    t.erase l = t := by
  have hfilter : t.entries.filter (fun entry => decide (entry.1 ≠ l)) = t.entries := by
    rw [List.filter_eq_self]
    intro entry he
    exact decide_eq_true (ne_of_mem_of_entryAt? h he)
  rw [erase, hfilter]

theorem erase_insert {t : FileTree} {l : Location} (h : t.entryAt? l = none) (e : Entry) :
    (t.insert l e).erase l = t := by
  have ht : t.entries.filter (fun entry => decide (entry.1 ≠ l)) = t.entries :=
    congrArg FileTree.entries (erase_of_entryAt? h)
  have hl : List.filter (fun entry : Location × Entry => decide (entry.1 ≠ l)) [(l, e)] = [] := by
    rw [List.filter_cons_of_neg (by simp), List.filter_nil]
  simp only [erase, insert, List.filter_append, ht, hl, List.append_nil]

theorem erase_replace (t : FileTree) (l : Location) (e : Entry) :
    (t.replace l e).erase l = t.erase l := by
  obtain ⟨entries⟩ := t
  simp only [erase, replace, mk.injEq]
  induction entries with
  | nil => rfl
  | cons entry rest ih =>
    by_cases h : entry.1 = l
    · simpa [h] using ih
    · simpa [h] using ih

theorem entryAt?_insert {t : FileTree} {l : Location} (h : t.entryAt? l = none) (e : Entry)
    (l' : Location) :
    (t.insert l e).entryAt? l' = if l' = l then some e else t.entryAt? l' := by
  have hne : l ≠ [] := by
    rintro rfl
    cases h
  by_cases hroot : l' = []
  · rw [hroot, if_neg (Ne.symm hne)]
    rfl
  · rw [entryAt?, if_neg hroot, insert, List.lookup_append]
    by_cases hl : l' = l
    · rw [entryAt?, if_neg hne] at h
      rw [hl, h, if_pos rfl, List.lookup_cons_self]
      rfl
    · rw [if_neg hl, entryAt?, if_neg hroot, List.lookup_cons, beq_false_of_ne hl]
      simp

/-- What has just been made is overwritten. -/
theorem replace_insert {t : FileTree} {l : Location} (h : t.entryAt? l = none) (e e' : Entry) :
    (t.insert l e').replace l e = t.insert l e := by
  have hold : t.entries.map (fun entry => if entry.1 = l then (l, e) else entry) = t.entries := by
    have hid : ∀ entry ∈ t.entries, (if entry.1 = l then (l, e) else entry) = id entry := by
      intro entry he
      rw [if_neg (ne_of_mem_of_entryAt? h he), id]
    rw [List.map_congr_left hid, List.map_id]
  rw [replace, insert, List.map_append, hold, List.map_singleton, if_pos rfl, insert]

/-- A file that has just been made and written. -/
theorem entryAt?_written {t : FileTree} {l : Location} (h : t.entryAt? l = none) (e e' : Entry)
    (l' : Location) :
    ((t.insert l e').replace l e).entryAt? l' = if l' = l then some e else t.entryAt? l' := by
  rw [replace_insert h, entryAt?_insert h]

theorem lookup_map_replace (entries : List (Location × Entry)) (l l' : Location) (e : Entry) :
    (entries.map fun entry => if entry.1 = l then (l, e) else entry).lookup l'
      = if l' = l then (entries.lookup l).map fun _ => e else entries.lookup l' := by
  induction entries with
  | nil => split <;> rfl
  | cons entry entries ih =>
    rw [List.map_cons]
    by_cases hentry : entry.1 = l
    · rw [if_pos hentry]
      by_cases hne : l' = l
      · rw [if_pos hne, hne, List.lookup_cons_self, List.lookup_cons, hentry, beq_self_eq_true]
        rfl
      · rw [if_neg hne] at ih ⊢
        rw [List.lookup_cons, List.lookup_cons, hentry, beq_false_of_ne hne]
        exact ih
    · rw [if_neg hentry, List.lookup_cons, ih]
      by_cases hne : l' = l
      · rw [if_pos hne, if_pos hne, hne, List.lookup_cons, beq_false_of_ne (Ne.symm hentry)]
      · rw [if_neg hne, if_neg hne, List.lookup_cons]

/-- An entry that is there is replaced, and no other. -/
theorem entryAt?_replace {t : FileTree} {l : Location} {old : Entry}
    (h : t.entryAt? l = some old) (hroot : l ≠ []) (e : Entry) (l' : Location) :
    (t.replace l e).entryAt? l' = if l' = l then some e else t.entryAt? l' := by
  by_cases hl' : l' = []
  · rw [hl', if_neg (Ne.symm hroot)]
    rfl
  rw [entryAt?, if_neg hroot] at h
  rw [entryAt?, if_neg hl', entryAt?, if_neg hl', replace, lookup_map_replace, h]
  rfl

theorem file_of_entryAt?_replace {t : FileTree} {l : Location} {e : Entry}
    {contents : List UInt8} (h : (t.replace l e).entryAt? l = some (.file contents)) :
    e = .file contents := by
  unfold entryAt? at h
  split at h
  · cases h
  · rw [replace, lookup_map_replace, if_pos rfl, Option.map_eq_some_iff] at h
    obtain ⟨-, -, he⟩ := h
    exact he

end ModuleHost.FileTree
