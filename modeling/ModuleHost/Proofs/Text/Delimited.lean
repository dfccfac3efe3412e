/-!
# Text up to a delimiter

Two texts that are alike, each cut at the first character of some kind, are alike on both sides of
the cut.  So numbers in base ten are told apart wherever something else than a digit stands behind
them.
-/

namespace ModuleHost.Text

variable {n k : Nat} {as bs : List Char} {x y : Char}

/-- What stands before the first character without the property, and what stands behind it. -/
theorem append_cons_inj {p : Char → Prop} {xs ys : List Char}
    (hxs : ∀ c ∈ xs, p c) (hys : ∀ c ∈ ys, p c) (hx : ¬ p x) (hy : ¬ p y)
    (h : xs ++ x :: as = ys ++ y :: bs) : xs = ys ∧ x = y ∧ as = bs := by
  induction xs generalizing ys with
  | nil =>
    cases ys with
    | nil => simpa using h
    | cons d ys =>
      obtain ⟨rfl, -⟩ := List.cons.inj h
      exact absurd (hys x List.mem_cons_self) hx
  | cons c xs ih =>
    cases ys with
    | nil =>
      obtain ⟨rfl, -⟩ := List.cons.inj h
      exact absurd (hxs c List.mem_cons_self) hy
    | cons d ys =>
      obtain ⟨rfl, hrest⟩ := List.cons.inj h
      obtain ⟨rfl, heq⟩ := ih (fun e he => hxs e (List.mem_cons_of_mem c he))
        (fun e he => hys e (List.mem_cons_of_mem c he)) hrest
      exact ⟨rfl, heq⟩

/-! ### Numbers in base ten -/

theorem isDigit_of_mem_toDigits {c : Char} (h : c ∈ Nat.toDigits 10 n) : c.isDigit = true :=
  Nat.isDigit_of_mem_toDigits (by decide) (by decide) h

theorem toDigits_inj (h : Nat.toDigits 10 n = Nat.toDigits 10 k) : n = k := by
  have hvalue := congrArg (fun digits => Nat.ofDigitChars 10 digits 0) h
  simpa using hvalue

theorem toDigits_append_inj (hx : x.isDigit = false) (hy : y.isDigit = false)
    (h : Nat.toDigits 10 n ++ x :: as = Nat.toDigits 10 k ++ y :: bs) : n = k ∧ as = bs := by
  obtain ⟨hdigits, -, hrest⟩ := append_cons_inj (p := fun c => c.isDigit = true)
    (fun _ hc => isDigit_of_mem_toDigits hc) (fun _ hc => isDigit_of_mem_toDigits hc)
    (Bool.not_eq_true _ ▸ hx) (Bool.not_eq_true _ ▸ hy) h
  exact ⟨toDigits_inj hdigits, hrest⟩

theorem toString_nat_inj (h : toString n = toString k) : n = k := by
  rw [Nat.toString_eq_repr, Nat.toString_eq_repr, ← String.toList_inj, Nat.toList_repr,
    Nat.toList_repr] at h
  exact toDigits_inj h

/-- A text that ends in a dot and a number ends in no other dot and number. -/
theorem number_unique {start start' : String}
    (h : start ++ ("." ++ toString n) = start' ++ ("." ++ toString k)) : n = k := by
  have hdigits : ∀ n, ∀ c ∈ (Nat.toDigits 10 n).reverse, c.isDigit = true := fun n c hc =>
    isDigit_of_mem_toDigits (List.mem_reverse.1 hc)
  have hreversed := congrArg (fun text => text.toList.reverse) h
  have hdot : ".".toList.reverse = ['.'] := rfl
  simp only [String.toList_append, List.reverse_append, Nat.toString_eq_repr, Nat.toList_repr,
    List.append_assoc, hdot, List.singleton_append] at hreversed
  have heq := (append_cons_inj (hdigits n) (hdigits k) (by decide) (by decide) hreversed).1
  exact toDigits_inj (List.reverse_inj.1 heq)

theorem toString_int_inj {m n : Int} (h : toString m = toString n) : m = n := by
  have hsign : ∀ n k : Nat, n.repr ≠ "-" ++ k.repr := by
    intro n k heq
    have hmem : '-' ∈ n.repr.toList := by
      rw [heq, String.toList_append]
      exact List.mem_append_left _ (by decide)
    rw [Nat.toList_repr] at hmem
    exact absurd (isDigit_of_mem_toDigits hmem) (by decide)
  cases m with
  | ofNat m =>
    cases n with
    | ofNat n => exact congrArg Int.ofNat (toString_nat_inj h)
    | negSucc n => exact absurd h (hsign _ _)
  | negSucc m =>
    cases n with
    | ofNat n => exact absurd h.symm (hsign _ _)
    | negSucc n =>
      have hnumber : m.succ = n.succ := toString_nat_inj ((String.append_right_inj "-").1 h)
      rw [Nat.succ.inj hnumber]

end ModuleHost.Text
