import ModuleHost.Proofs.Assembly.Layout
import ModuleHost.Proofs.Assembly.Spelling
import Mathlib.Data.List.DropRight

/-!
# Scans of a line

A line is scanned for its comment, and what is left of it for commas.  Both scans follow the quotes
in the same way, so a text that the one leaves whole the other one leaves whole as well (`Whole`).
The first piece of a line is whole, and what is behind it is looked at on its own
(`commaPieces?_eq_cons`).
-/

namespace ModuleHost

namespace Text

theorem trimEnd_append_cons {c : Char} (hc : isBlank c = false) (cs ds : List Char) :
    trimEnd (cs ++ c :: ds) = cs ++ c :: trimEnd ds := by
  have hkeep : (c :: cs.reverse).dropWhile isBlank = c :: cs.reverse :=
    List.dropWhile_cons_of_neg (by rw [hc]; decide)
  rw [trimEnd, trimEnd, List.reverse_append, List.reverse_cons, List.append_assoc,
    List.singleton_append, List.dropWhile_append, hkeep]
  split
  · next hempty =>
    rw [List.isEmpty_iff.1 hempty]
    simp
  · simp

theorem trimEnd_trimEnd (cs : List Char) : trimEnd (trimEnd cs) = trimEnd cs := by
  rw [trimEnd, trimEnd, List.reverse_reverse, List.dropWhile_idempotent]

theorem trim_cons {c : Char} (hc : isBlank c = false) (cs : List Char) :
    trim (c :: cs) = trimEnd (c :: cs) := by
  rw [trim, trimStart, List.dropWhile_cons_of_neg (by rw [hc]; decide)]

theorem trim_blanks_append {left : List Char} (h : ∀ c ∈ left, isBlank c) (cs : List Char) :
    trim (left ++ cs) = trim cs := by
  have hboth : trim (left ++ (cs ++ [])) = trim cs := trim_blanks h nofun
  rwa [List.append_nil] at hboth

theorem trim_append_blanks {right : List Char} (h : ∀ c ∈ right, isBlank c) (cs : List Char) :
    trim (cs ++ right) = trim cs := by
  have hboth : trim ([] ++ (cs ++ right)) = trim cs := trim_blanks nofun h
  exact hboth

theorem trimEnd_of_forall {cs : List Char} (h : ∀ c ∈ cs, isBlank c) : trimEnd cs = [] := by
  rw [trimEnd, List.dropWhile_eq_nil_iff.2 fun c hc => h c (List.mem_reverse.1 hc)]
  rfl

theorem exists_trimEnd (cs : List Char) :
    ∃ blanks, cs = trimEnd cs ++ blanks ∧ ∀ c ∈ blanks, isBlank c := by
  refine ⟨(cs.reverse.takeWhile isBlank).reverse, ?_, fun c hc => ?_⟩
  · rw [trimEnd, ← List.reverse_append, List.takeWhile_append_dropWhile, List.reverse_reverse]
  · exact List.mem_takeWhile_imp (List.mem_reverse.1 hc)

theorem exists_trim (cs : List Char) : ∃ left right, cs = left ++ (trim cs ++ right)
    ∧ (∀ c ∈ left, isBlank c) ∧ ∀ c ∈ right, isBlank c := by
  obtain ⟨right, hcs, hright⟩ := exists_trimEnd (trimStart cs)
  refine ⟨cs.takeWhile isBlank, right, ?_, fun c hc => List.mem_takeWhile_imp hc, hright⟩
  rw [trim, ← hcs, trimStart, List.takeWhile_append_dropWhile]

end Text

namespace Assembly

variable {q : Quoting} {c : Char} {cs ds blanks : List Char}

/-! ### Scans -/

theorem ne_of_isBlank (h : Text.isBlank c) {d : Char} (hd : Text.isBlank d = false) : c ≠ d := by
  rintro rfl
  rw [hd] at h
  cases h

theorem after_append (q : Quoting) (cs ds : List Char) :
    q.after (cs ++ ds) = (q.after cs).after ds := List.foldl_append

/-- Blanks lead neither into quotes nor out of them. -/
theorem after_blanks_iff (h : ∀ c ∈ blanks, Text.isBlank c) :
    q.after blanks = .outside ↔ q = .outside := by
  induction blanks generalizing q with
  | nil => exact Iff.rfl
  | cons c blanks ih =>
    have hc := h c List.mem_cons_self
    have hnext : q.next c = .outside ↔ q = .outside := by
      cases q with
      | outside => rw [Quoting.next, if_neg (ne_of_isBlank hc rfl)]
      | inside =>
        rw [Quoting.next, if_neg (ne_of_isBlank hc rfl), if_neg (ne_of_isBlank hc rfl)]
      | escaped =>
        rw [Quoting.next]
        decide
    rw [Quoting.after, List.foldl_cons]
    exact (ih fun d hd => h d (List.mem_cons_of_mem c hd)).trans hnext

theorem after_trimEnd_iff : q.after (Text.trimEnd cs) = .outside ↔ q.after cs = .outside := by
  obtain ⟨blanks, hcs, hblanks⟩ := Text.exists_trimEnd cs
  conv_rhs => rw [hcs, after_append]
  exact (after_blanks_iff hblanks).symm

theorem Whole.after (h : Whole q cs) : q.after cs = .outside := by
  induction cs generalizing q with
  | nil => exact h
  | cons c cs ih => exact ih h.2

theorem Whole.append (h : Whole q cs) (hds : Whole .outside ds) : Whole q (cs ++ ds) := by
  induction cs generalizing q with
  | nil =>
    obtain rfl : q = .outside := h
    exact hds
  | cons c cs ih => exact ⟨h.1, ih h.2⟩

theorem whole_of_forall (h : ∀ c ∈ cs, startsComment c = false ∧ c ≠ ',' ∧ c ≠ '"') :
    Whole .outside cs := by
  induction cs with
  | nil => rfl
  | cons c cs ih =>
    obtain ⟨hcomment, hcomma, hquote⟩ := h c List.mem_cons_self
    refine ⟨fun _ => ⟨hcomment, hcomma⟩, ?_⟩
    rw [Quoting.next, if_neg hquote]
    exact ih fun d hd => h d (List.mem_cons_of_mem c hd)

theorem whole_blanks (h : ∀ c ∈ blanks, Text.isBlank c) : Whole .outside blanks :=
  whole_of_forall fun c hc => ⟨startsComment_of_isBlank (h c hc), ne_of_isBlank (h c hc) rfl,
    ne_of_isBlank (h c hc) rfl⟩

theorem whole_append_blanks (h : ∀ c ∈ blanks, Text.isBlank c) :
    Whole q (cs ++ blanks) ↔ Whole q cs := by
  induction cs generalizing q with
  | nil =>
    constructor
    · exact fun hw => (after_blanks_iff h).1 hw.after
    · intro hq
      obtain rfl : q = .outside := hq
      exact whole_blanks h
  | cons c cs ih => exact and_congr_right fun _ => ih

theorem whole_blanks_append (h : ∀ c ∈ blanks, Text.isBlank c) :
    Whole .outside (blanks ++ cs) ↔ Whole .outside cs := by
  refine ⟨fun hw => ?_, (whole_blanks h).append⟩
  induction blanks with
  | nil => exact hw
  | cons c blanks ih =>
    have hnext : Quoting.outside.next c = .outside :=
      if_neg (ne_of_isBlank (h c List.mem_cons_self) rfl)
    refine ih (fun d hd => h d (List.mem_cons_of_mem c hd)) ?_
    have htail := hw.2
    rwa [hnext] at htail

/-! ### Comments -/

theorem exists_comment (q : Quoting) (cs : List Char) :
    ∃ comment, cs = beforeComment q cs ++ comment ∧ ∀ c ∈ comment.head?, startsComment c := by
  induction cs generalizing q with
  | nil => exact ⟨[], rfl, nofun⟩
  | cons c cs ih =>
    rw [beforeComment]
    split
    · next h =>
      refine ⟨c :: cs, rfl, ?_⟩
      rintro d ⟨⟩
      exact h.2
    · obtain ⟨comment, hcs, hcomment⟩ := ih (q.next c)
      exact ⟨comment, congrArg (c :: ·) hcs, hcomment⟩

theorem beforeComment_of_head (h : ∀ c ∈ cs.head?, startsComment c) :
    beforeComment .outside cs = [] := by
  cases cs with
  | nil => rfl
  | cons c cs => exact if_pos ⟨rfl, h c rfl⟩

theorem beforeComment_beforeComment (q : Quoting) (cs : List Char) :
    beforeComment q (beforeComment q cs) = beforeComment q cs := by
  induction cs generalizing q with
  | nil => rfl
  | cons c cs ih =>
    by_cases h : q = .outside ∧ startsComment c = true
    · rw [beforeComment, if_pos h, beforeComment]
    · rw [beforeComment, if_neg h, beforeComment, if_neg h, ih]

/-- The beginning of a text without a comment has no comment. -/
theorem beforeComment_of_append (h : beforeComment q (cs ++ ds) = cs ++ ds) :
    beforeComment q cs = cs := by
  induction cs generalizing q with
  | nil => rfl
  | cons c cs ih =>
    rw [List.cons_append, beforeComment] at h
    rw [beforeComment]
    split at h
    · cases h
    · next hc => rw [if_neg hc, ih (List.cons.inj h).2]

/-! ### Pieces between commas -/

variable {piece : List Char} {pieces : List (List Char)}

theorem Whole.commaPieces?_comma (h : Whole q cs) (rest : List Char) :
    commaPieces? q (cs ++ ',' :: rest) = (commaPieces? .outside rest).map (cs :: ·) := by
  induction cs generalizing q with
  | nil =>
    obtain rfl : q = .outside := h
    rw [List.nil_append, commaPieces?, if_pos ⟨rfl, rfl⟩]
  | cons c cs ih =>
    have hcomma : ¬ (q = .outside ∧ c = ',') := fun hc => (h.1 hc.1).2 hc.2
    rw [List.cons_append, commaPieces?, if_neg hcomma, ih h.2, Option.map_map]
    rfl

theorem Whole.commaPieces?_eq (h : Whole q cs) : commaPieces? q cs = some [cs] := by
  have hpieces : commaPieces? q (cs ++ []) = some [cs ++ []] := h.commaPieces?_append rfl
  rwa [List.append_nil] at hpieces

theorem commaPieces?_ne_nil (q : Quoting) (cs : List Char) : commaPieces? q cs ≠ some [] := by
  intro h
  cases cs with
  | nil =>
    rw [commaPieces?] at h
    split at h <;> cases h
  | cons c cs =>
    rw [commaPieces?] at h
    split at h
    · obtain ⟨pieces, -, heq⟩ := Option.map_eq_some_iff.1 h
      cases heq
    · obtain ⟨pieces, -, heq⟩ := Option.map_eq_some_iff.1 h
      cases pieces <;> cases heq

theorem isSome_commaPieces?_iff :
    (commaPieces? q cs).isSome = true ↔ q.after cs = .outside := by
  induction cs generalizing q with
  | nil =>
    rw [commaPieces?]
    split
    · next h => exact iff_of_true rfl h
    · next h => exact iff_of_false Bool.false_ne_true h
  | cons c cs ih =>
    rw [commaPieces?, Quoting.after, List.foldl_cons]
    split
    · next h =>
      obtain ⟨rfl, rfl⟩ := h
      rw [Option.isSome_map]
      exact ih
    · rw [Option.isSome_map]
      exact ih

/-- The first piece of a text without a comment is whole, and the others are those behind its
comma. -/
theorem commaPieces?_eq_cons (hcode : beforeComment q cs = cs)
    (h : commaPieces? q cs = some (piece :: pieces)) :
    Whole q piece ∧ (cs = piece ∨ ∃ rest, cs = piece ++ ',' :: rest
      ∧ commaPieces? .outside rest = some pieces) := by
  induction cs generalizing q piece with
  | nil =>
    rw [commaPieces?] at h
    split at h
    · next hq =>
      cases h
      exact ⟨hq, .inl rfl⟩
    · cases h
  | cons c cs ih =>
    rw [beforeComment] at hcode
    split at hcode
    · cases hcode
    next hsign =>
    rw [commaPieces?] at h
    split at h
    · next hc =>
      obtain ⟨rfl, rfl⟩ := hc
      obtain ⟨rest, hrest, heq⟩ := Option.map_eq_some_iff.1 h
      cases heq
      exact ⟨rfl, .inr ⟨cs, rfl, hrest⟩⟩
    · next hcomma =>
      obtain ⟨split, hsplit, heq⟩ := Option.map_eq_some_iff.1 h
      cases split with
      | nil => exact absurd hsplit (commaPieces?_ne_nil _ cs)
      | cons first others =>
        cases heq
        obtain ⟨hwhole, hrest⟩ := ih (List.cons.inj hcode).2 hsplit
        refine ⟨⟨fun hq => ⟨?_, fun hc => hcomma ⟨hq, hc⟩⟩, hwhole⟩, ?_⟩
        · rw [← Bool.not_eq_true]
          exact fun hs => hsign ⟨hq, hs⟩
        · rcases hrest with rfl | ⟨rest, rfl, hpieces⟩
          · exact .inl rfl
          · exact .inr ⟨rest, rfl, hpieces⟩

end Assembly

end ModuleHost
