import ModuleHost.Proofs.Assembly.Numerals
import ModuleHost.Proofs.Text.Delimited
import ModuleHost.Text.Quoted

/-!
# Quoted text shows everything

Between quotes every character is written in a way of its own, and where one character ends the next
one begins (`Shown.unique`).  So a quoted text is the text of one string only (`quote_inj`), and it
stands in one line whatever characters are in the string.
-/

namespace ModuleHost.Text

variable {c d : Char} {cs ds as bs : List Char} {n k : Nat}

/-! ### Numbers in base sixteen -/

theorem digitNumber_digitChar (h : n < 16) : digitNumber (Nat.digitChar n) = n := by
  have hall : ∀ n < 16, digitNumber (Nat.digitChar n) = n := by decide
  exact hall n h

theorem writes_lowerHex (n : Nat) : Writes 16 (lowerHex n) n := by
  induction n using Nat.strongRecOn with
  | ind n ih =>
    rw [lowerHex]
    by_cases hn : n < 16
    · have hdigit := digitNumber_digitChar hn
      rw [Nat.toDigits_of_lt_base hn]
      refine ⟨List.cons_ne_nil _ _, fun c hc => ?_, ?_⟩
      · rw [List.mem_singleton.1 hc, hdigit]
        exact hn
      · rw [List.reverse_singleton, List.map_singleton, Nat.ofDigits_singleton, hdigit]
    · have hrest : Writes 16 (Nat.toDigits 16 (n / 16)) (n / 16) := ih (n / 16) (by omega)
      have hmod : n % 16 < 16 := Nat.mod_lt n (by decide)
      have hdigit := digitNumber_digitChar hmod
      rw [Nat.toDigits_of_base_le (by decide) (Nat.le_of_not_lt hn)]
      refine ⟨by simp, fun c hc => ?_, ?_⟩
      · rcases List.mem_append.1 hc with hc | hc
        · exact hrest.valid c hc
        · rw [List.mem_singleton.1 hc, hdigit]
          exact hmod
      · rw [List.reverse_append, List.reverse_singleton, List.singleton_append, List.map_cons,
          Nat.ofDigits_cons, ← hrest.value, hdigit]
        omega

theorem lowerHex_inj (h : lowerHex n = lowerHex k) : n = k := by
  rw [(writes_lowerHex n).value, (writes_lowerHex k).value, h]

theorem ne_of_mem_lowerHex (hc : c ∈ lowerHex n) (hd : 16 ≤ digitNumber d) : c ≠ d := by
  rintro rfl
  exact Nat.not_lt.2 hd ((writes_lowerHex n).valid c hc)

/-! ### Characters -/

/-- The characters with a short escape, each behind the letter of its escape. -/
def shortEscapes : List (Char × Char) :=
  [('0', '\x00'), ('t', '\t'), ('n', '\n'), ('r', '\r'), ('"', '"'), ('\\', '\\')]

inductive Shown (c : Char) : List Char → Prop
  | short {e : Char} (h : (e, c) ∈ shortEscapes) : Shown c ['\\', e]
  | codePoint : Shown c (codePointEscape c)
  | bare (hbackslash : c ≠ '\\') (hquote : c ≠ '"') (hnewline : c ≠ '\n') : Shown c [c]

theorem shown_quoteChar (c : Char) : Shown c (quoteChar c) := by
  unfold quoteChar
  split
  · exact .short (by decide)
  · exact .short (by decide)
  · exact .short (by decide)
  · exact .short (by decide)
  · exact .short (by decide)
  · exact .short (by decide)
  · next hnewline _ hquote hbackslash =>
    split
    · exact .codePoint
    · exact .bare hbackslash hquote hnewline

/-- What is written for a character does not begin with a quote. -/
theorem Shown.head_ne (h : Shown c cs) : (cs ++ as).head? ≠ some '"' := by
  cases h with
  | short => exact nofun
  | codePoint => exact nofun
  | bare _ hquote _ => exact fun heq => hquote (Option.some.inj heq)

theorem Shown.newline (h : Shown c cs) : '\n' ∉ cs := by
  cases h with
  | @short e h =>
    have hall : ∀ e ∈ shortEscapes, '\n' ∉ ['\\', e.1] := by decide
    exact hall _ h
  | codePoint =>
    intro hmem
    rcases List.mem_append.1 hmem with hmem | hmem
    · rcases List.mem_append.1 hmem with hmem | hmem
      · exact absurd hmem (by decide)
      · exact ne_of_mem_lowerHex hmem (by decide) rfl
    · exact absurd hmem (by decide)
  | bare _ _ hnewline => exact fun hmem => hnewline (List.mem_singleton.1 hmem).symm

/-- The escapes by a code point tell their characters apart. -/
theorem codePointEscape_append_inj (h : codePointEscape c ++ as = codePointEscape d ++ bs) :
    c = d ∧ as = bs := by
  simp only [codePointEscape, List.append_assoc, List.cons_append, List.nil_append,
    List.cons.injEq, true_and] at h
  have hdigits : ∀ (n : Nat), ∀ e ∈ lowerHex n, e ≠ '\x7d' :=
    fun n e he => ne_of_mem_lowerHex he (by decide)
  obtain ⟨heq, -, htail⟩ :=
    append_cons_inj (hdigits c.toNat) (hdigits d.toNat) (by decide) (by decide) h
  exact ⟨Char.toNat_inj.1 (lowerHex_inj heq), htail⟩

/-- No character is written like the beginning of another one. -/
theorem Shown.unique (hc : Shown c cs) (hd : Shown d ds) (h : cs ++ as = ds ++ bs) :
    c = d ∧ as = bs := by
  -- no short escape has the letter of an escape by a code point
  have hletter : ∀ e ∈ shortEscapes, e.1 ≠ 'u' := by decide
  cases hc with
  | @short e hc =>
    cases hd with
    | @short e' hd =>
      obtain ⟨-, htail⟩ := List.cons.inj h
      obtain ⟨rfl, heq⟩ := List.cons.inj htail
      have hall : ∀ x ∈ shortEscapes, ∀ y ∈ shortEscapes, x.1 = y.1 → x.2 = y.2 := by decide
      exact ⟨hall _ hc _ hd rfl, heq⟩
    | codePoint =>
      obtain ⟨-, htail⟩ := List.cons.inj h
      exact absurd (List.cons.inj htail).1 (hletter _ hc)
    | bare hbackslash => exact absurd (List.cons.inj h).1.symm hbackslash
  | codePoint =>
    cases hd with
    | @short e' hd =>
      obtain ⟨-, htail⟩ := List.cons.inj h
      exact absurd (List.cons.inj htail).1.symm (hletter _ hd)
    | codePoint => exact codePointEscape_append_inj h
    | bare hbackslash => exact absurd (List.cons.inj h).1.symm hbackslash
  | bare hbackslash =>
    cases hd with
    | short => exact absurd (List.cons.inj h).1 hbackslash
    | codePoint => exact absurd (List.cons.inj h).1 hbackslash
    | bare => exact List.cons.inj h

/-! ### Texts -/

theorem flatMap_quoteChar_inj
    (h : cs.flatMap quoteChar ++ '"' :: as = ds.flatMap quoteChar ++ '"' :: bs) :
    cs = ds ∧ as = bs := by
  induction cs generalizing ds with
  | nil =>
    cases ds with
    | nil => exact ⟨rfl, (List.cons.inj h).2⟩
    | cons d ds =>
      rw [List.flatMap_cons, List.append_assoc] at h
      exact absurd (congrArg List.head? h).symm (shown_quoteChar d).head_ne
  | cons c cs ih =>
    rw [List.flatMap_cons, List.append_assoc] at h
    cases ds with
    | nil => exact absurd (congrArg List.head? h) (shown_quoteChar c).head_ne
    | cons d ds =>
      rw [List.flatMap_cons, List.append_assoc] at h
      obtain ⟨rfl, hrest⟩ := (shown_quoteChar c).unique (shown_quoteChar d) h
      obtain ⟨rfl, heq⟩ := ih hrest
      exact ⟨rfl, heq⟩

theorem toList_quote (text : String) :
    (quote text).toList = '"' :: (text.toList.flatMap quoteChar ++ ['"']) := String.toList_ofList

/-- A quoted text is the text of one string only. -/
theorem quote_inj {s t : String} (h : quote s = quote t) : s = t := by
  have hlists := congrArg String.toList h
  rw [toList_quote, toList_quote] at hlists
  exact String.toList_inj.1 (flatMap_quoteChar_inj (List.cons.inj hlists).2).1

theorem newline_quote (text : String) : '\n' ∉ (quote text).toList := by
  rw [toList_quote]
  intro h
  rcases List.mem_cons.1 h with hquote | h
  · exact absurd hquote (by decide)
  rcases List.mem_append.1 h with h | hquote
  · obtain ⟨c, -, hc⟩ := List.mem_flatMap.1 h
    exact (shown_quoteChar c).newline hc
  · exact absurd hquote (by decide)

end ModuleHost.Text
