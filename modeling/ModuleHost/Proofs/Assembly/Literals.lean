import ModuleHost.Proofs.Assembly.Layout
import ModuleHost.Proofs.Assembly.Numerals
import ModuleHost.Proofs.Assembly.Spelling

/-!
# String literals

A literal is a quote, characters in which a backslash starts an escape, and another quote
(`IsLiteral`).  A line is scanned three times: for its comment, for the commas between its operands
and, inside an operand, for the escapes.  About literals the three agree: the first two scans are
inside the quotes from the opening quote to the closing one (`IsLiteral.inside`).  But the third one
goes on to the last quote of the operand, also when the others have left the literal before
(`RunsOn`).
-/

namespace ModuleHost.Assembly

variable {bare : Char → Prop} {c : Char} {cs ds inner operand : List Char} {q : Quoting}
  {text : String}

/-! ### Escapes -/

/-- What may stand behind a backslash, and the character that it stands for there. -/
def escapes : List (Char × Char) :=
  [('n', '\n'), ('t', '\t'), ('0', '\x00'), ('\\', '\\'), ('"', '"')]

/-- What characters between quotes stand for: every backslash starts an escape, and those characters
that may be `bare` stand for themselves. -/
inductive Decodes (bare : Char → Prop) : List Char → List Char → Prop
  | nil : Decodes bare [] []
  | bare {c : Char} {cs ds : List Char} (hc : bare c) (h : Decodes bare cs ds) :
      Decodes bare (c :: cs) (c :: ds)
  | escape {c d : Char} {cs ds : List Char} (hc : (c, d) ∈ escapes) (h : Decodes bare cs ds) :
      Decodes bare ('\\' :: c :: cs) (d :: ds)

theorem escapedChar?_eq_some_iff {d : Char} : escapedChar? c = some d ↔ (c, d) ∈ escapes := by
  unfold escapedChar?
  split <;> grind [escapes]

theorem map_eq_ok {α β : Type} {f : α → β} {x : Except Fault α} {b : β} (h : x.map f = .ok b) :
    ∃ a, x = .ok a ∧ f a = b := by
  cases x with
  | error e => cases h
  | ok a => exact ⟨a, rfl, Except.ok.inj h⟩

theorem unescape_bare (hc : c ≠ '\\') (cs : List Char) :
    unescape (c :: cs) = (unescape cs).map (c :: ·) := by
  rw [unescape]
  · exact fun h _ => hc h
  · exact fun _ _ h _ => hc h

theorem unescape_escape {d : Char} (hc : (c, d) ∈ escapes) (cs : List Char) :
    unescape ('\\' :: c :: cs) = (unescape cs).map (d :: ·) := by
  rw [unescape, escapedChar?_eq_some_iff.2 hc]

/-- Characters between quotes are read as what they stand for, if they stand for something. -/
theorem unescape_eq_ok_iff : unescape cs = .ok ds ↔ Decodes (· ≠ '\\') cs ds := by
  constructor
  · intro h
    fun_induction unescape cs generalizing ds with
    | case1 =>
      cases h
      exact .nil
    | case2 | case4 => cases h
    | case3 c cs e he ih =>
      obtain ⟨rest, hrest, rfl⟩ := map_eq_ok h
      exact .escape (escapedChar?_eq_some_iff.1 he) (ih hrest)
    | case5 c cs h₁ h₂ ih =>
      obtain ⟨rest, hrest, rfl⟩ := map_eq_ok h
      refine .bare ?_ (ih hrest)
      rintro rfl
      cases cs with
      | nil => exact h₁ rfl rfl
      | cons d cs => exact h₂ d cs rfl rfl
  · intro h
    induction h with
    | nil => rfl
    | bare hc _ ih =>
      rw [unescape_bare hc, ih]
      rfl
    | escape hc _ ih =>
      rw [unescape_escape hc, ih]
      rfl

theorem betweenQuotes?_eq_some_iff :
    betweenQuotes? operand = some inner ↔ operand = '"' :: (inner ++ ['"']) := by
  constructor
  · intro h
    unfold betweenQuotes? at h
    split at h
    · next rest =>
      split at h
      · next hlast =>
        obtain ⟨before, rfl⟩ := List.getLast?_eq_some_iff.1 hlast
        rw [List.dropLast_concat] at h
        rw [Option.some.inj h]
      · cases h
    · cases h
  · rintro rfl
    rw [betweenQuotes?, if_pos List.getLast?_concat, List.dropLast_concat]

/-- An operand is read as a text if it has quotes at both ends and what stands between them is
decoded to that text. -/
theorem stringLiteral_eq_ok_iff : stringLiteral operand = .ok text
    ↔ ∃ inner, operand = '"' :: (inner ++ ['"']) ∧ Decodes (· ≠ '\\') inner text.toList := by
  unfold stringLiteral
  constructor
  · intro h
    split at h
    · next inner hinner =>
      obtain ⟨ds, hds, rfl⟩ := map_eq_ok h
      refine ⟨inner, betweenQuotes?_eq_some_iff.1 hinner, ?_⟩
      rw [String.toList_ofList]
      exact unescape_eq_ok_iff.1 hds
    · cases h
  · rintro ⟨inner, hoperand, hinner⟩
    rw [betweenQuotes?_eq_some_iff.2 hoperand]
    dsimp only
    rw [unescape_eq_ok_iff.2 hinner]
    exact congrArg Except.ok String.ofList_toList

/-! ### Literals -/

/-- One complete literal: between its quotes every backslash starts an escape and no other quote
stands bare. -/
def IsLiteral (operand : List Char) (text : String) : Prop :=
  ∃ inner, operand = '"' :: (inner ++ ['"'])
    ∧ Decodes (fun c => c ≠ '\\' ∧ c ≠ '"') inner text.toList

/-- The scan has left the quotes before the last of these characters. -/
def Leaves (inner : List Char) : Prop :=
  ∃ n ≤ inner.length, Quoting.inside.after (inner.take n) = .outside

/-- An operand with quotes at both ends and others between them, which the scan of the line takes
for the ends of several literals. -/
def RunsOn (operand : List Char) (text : String) : Prop :=
  ∃ inner, operand = '"' :: (inner ++ ['"']) ∧ Decodes (· ≠ '\\') inner text.toList
    ∧ Whole .outside operand ∧ Leaves inner

theorem Decodes.mono {bare' : Char → Prop} (hbare : ∀ c, bare c → bare' c)
    (h : Decodes bare cs ds) : Decodes bare' cs ds := by
  induction h with
  | nil => exact .nil
  | bare hc _ ih => exact .bare (hbare _ hc) ih
  | escape hc _ ih => exact .escape hc ih

theorem leaves_cons (c : Char) (cs : List Char) (hnext : Quoting.inside.next c = .inside) :
    Leaves (c :: cs) ↔ Leaves cs := by
  constructor
  · rintro ⟨n, hn, hafter⟩
    cases n with
    | zero => cases hafter
    | succ n =>
      rw [List.take_succ_cons, Quoting.after, List.foldl_cons, hnext] at hafter
      exact ⟨n, Nat.le_of_succ_le_succ hn, hafter⟩
  · rintro ⟨n, hn, hafter⟩
    refine ⟨n + 1, Nat.succ_le_succ hn, ?_⟩
    rw [List.take_succ_cons, Quoting.after, List.foldl_cons, hnext]
    exact hafter

theorem leaves_escape (c : Char) (cs : List Char) : Leaves ('\\' :: c :: cs) ↔ Leaves cs := by
  constructor
  · rintro ⟨n, hn, hafter⟩
    match n, hn, hafter with
    | 0, _, hafter | 1, _, hafter => cases hafter
    | n + 2, hn, hafter => exact ⟨n, Nat.le_of_succ_le_succ (Nat.le_of_succ_le_succ hn), hafter⟩
  · rintro ⟨n, hn, hafter⟩
    exact ⟨n + 2, Nat.succ_le_succ (Nat.succ_le_succ hn), hafter⟩

/-- Quotes that stand bare are those at which the scan leaves. -/
theorem decodes_iff_not_leaves : Decodes (fun c => c ≠ '\\' ∧ c ≠ '"') cs ds
    ↔ Decodes (· ≠ '\\') cs ds ∧ ¬ Leaves cs := by
  constructor
  · intro h
    refine ⟨h.mono fun c hc => hc.1, ?_⟩
    induction h with
    | nil =>
      rintro ⟨n, hn, hafter⟩
      rw [List.take_nil] at hafter
      cases hafter
    | @bare c cs ds hc _ ih =>
      rwa [leaves_cons c cs (by rw [Quoting.next, if_neg hc.1, if_neg hc.2])]
    | @escape c d cs ds hc _ ih => rwa [leaves_escape]
  · rintro ⟨h, hstays⟩
    induction h with
    | nil => exact .nil
    | @bare c cs ds hc _ ih =>
      have hquote : c ≠ '"' := by
        rintro rfl
        exact hstays ⟨1, Nat.succ_le_succ (Nat.zero_le _), rfl⟩
      refine .bare ⟨hc, hquote⟩ (ih ?_)
      rwa [leaves_cons c cs (by rw [Quoting.next, if_neg hc, if_neg hquote])] at hstays
    | @escape c d cs ds hc _ ih =>
      rw [leaves_escape] at hstays
      exact .escape hc (ih hstays)

theorem whole_of_decodes (h : Decodes (fun c => c ≠ '\\' ∧ c ≠ '"') inner ds) :
    Whole .inside (inner ++ ['"']) := by
  induction h with
  | nil => exact ⟨fun h => absurd h (by decide), rfl⟩
  | @bare c cs ds hc _ ih =>
    refine ⟨fun h => absurd h (by decide), ?_⟩
    rw [Quoting.next, if_neg hc.1, if_neg hc.2]
    exact ih
  | @escape c d cs ds hc _ ih =>
    exact ⟨fun h => absurd h (by decide), fun h => absurd h (by decide), ih⟩

theorem IsLiteral.whole (h : IsLiteral operand text) : Whole .outside operand := by
  obtain ⟨inner, rfl, hinner⟩ := h
  exact ⟨fun _ => ⟨rfl, by decide⟩, whole_of_decodes hinner⟩

/-- From its first quote to its last the scans are inside a literal. -/
theorem IsLiteral.inside (h : IsLiteral operand text) {n : Nat} (hpos : 0 < n)
    (hn : n < operand.length) : Quoting.outside.after (operand.take n) ≠ .outside := by
  obtain ⟨inner, rfl, hinner⟩ := h
  obtain ⟨k, rfl⟩ := Nat.exists_eq_succ_of_ne_zero (Nat.ne_of_gt hpos)
  have hk : k ≤ inner.length := by
    rw [List.length_cons, List.length_append, List.length_singleton] at hn
    omega
  rw [List.take_succ_cons, List.take_append_of_le_length hk]
  exact fun hafter => (decodes_iff_not_leaves.1 hinner).2 ⟨k, hk, hafter⟩

/-- Of the operands that the scans of the line leave whole, those are read that are one literal or
run on. -/
theorem stringLiteral_of_whole : (Whole .outside operand ∧ stringLiteral operand = .ok text)
    ↔ IsLiteral operand text ∨ RunsOn operand text := by
  rw [stringLiteral_eq_ok_iff]
  constructor
  · rintro ⟨hwhole, inner, hoperand, hinner⟩
    by_cases hleaves : Leaves inner
    · exact .inr ⟨inner, hoperand, hinner, hwhole, hleaves⟩
    · exact .inl ⟨inner, hoperand, decodes_iff_not_leaves.2 ⟨hinner, hleaves⟩⟩
  · rintro (h | ⟨inner, hoperand, hinner, hwhole, -⟩)
    · obtain ⟨inner, hoperand, hinner⟩ := id h
      exact ⟨h.whole, inner, hoperand, (decodes_iff_not_leaves.1 hinner).1⟩
    · exact ⟨hwhole, inner, hoperand, hinner⟩

end ModuleHost.Assembly
