import ModuleHost.Instruction.Listing
import ModuleHost.Proofs.Text.Delimited
import Mathlib.Data.List.Basic

/-!
# What the text of an instruction shows

Every operation shows some of the fields of its instruction: the others, and what a truth value or
the mode of an arithmetic instruction has beyond its meaning, are not in the text.  What is shown is
shown without doubt: instructions with the same text are alike in all of it (`shown_eq_of_text_eq`).
-/

namespace ModuleHost.Instruction

variable {i j : Instruction}

/-- The instruction with nothing in it but what its text shows. -/
def shown (i : Instruction) : Instruction :=
  match i.opcode with
  | .nop | .halt => { opcode := i.opcode }
  | .mov => { opcode := i.opcode, dest := i.dest, src1 := i.src1 }
  | .loadInt | .loadStr | .getGlobal => { opcode := i.opcode, dest := i.dest, imm := i.imm }
  | .loadNil | .loadSelf => { opcode := i.opcode, dest := i.dest }
  | .loadBool => { opcode := i.opcode, dest := i.dest, imm := if i.imm = 0 then 0 else 1 }
  | .arith => { i with mode := ((ArithOp.ofCode? i.mode).map ArithOp.code).getD 255, imm := 0 }
  | .setGlobal | .jumpIf | .jumpUnless => { opcode := i.opcode, src1 := i.src1, imm := i.imm }
  | .call => { i with src2 := 0 }
  | .define => { opcode := i.opcode, mode := i.mode, imm := i.imm }
  | .jump => { opcode := i.opcode, imm := i.imm }
  | .raise | .ret => { opcode := i.opcode, src1 := i.src1 }

/-! ### Text without delimiters -/

def delimiters : List Char := [' ', ',', ';', '\n']

def Undivided (text : String) : Prop := ∀ c ∈ text.toList, c ∉ delimiters

theorem undivided_of_all {text : String}
    (h : text.toList.all (fun c => !delimiters.contains c) = true) : Undivided text := by
  intro c hc hd
  have hnot := List.all_eq_true.1 h c hc
  rw [List.contains_iff_mem.2 hd] at hnot
  cases hnot

theorem Undivided.append {s t : String} (hs : Undivided s) (ht : Undivided t) :
    Undivided (s ++ t) := by
  intro c hc
  rw [String.toList_append] at hc
  rcases List.mem_append.1 hc with hc | hc
  · exact hs c hc
  · exact ht c hc

theorem undivided_repr (n : Nat) : Undivided n.repr := by
  intro c hc
  rw [Nat.toList_repr] at hc
  have hdigit := Text.isDigit_of_mem_toDigits hc
  have hall : ∀ d ∈ delimiters, d.isDigit = false := by simp [delimiters]
  intro hd
  rw [hall c hd] at hdigit
  cases hdigit

theorem undivided_toString (n : Int) : Undivided (toString n) := by
  rw [Int.toString_eq_repr, Int.repr_eq_if]
  split
  · exact undivided_repr _
  · have hsign : Undivided "-" := undivided_of_all (by decide)
    exact hsign.append (undivided_repr _)

theorem undivided_registerText (r : UInt8) : Undivided (registerText r) := by
  have hletter : Undivided "r" := undivided_of_all (by decide)
  exact hletter.append (undivided_repr _)

theorem undivided_symbolText (imm : Int32) : Undivided (symbolText imm) := by
  have hsign : Undivided "@" := undivided_of_all (by decide)
  exact hsign.append (undivided_toString _)

theorem undivided_operandTexts (i : Instruction) : ∀ t ∈ i.operandTexts, Undivided t := by
  have hchild : Undivided "child" := undivided_of_all (by decide)
  have htruth : Undivided (if i.imm = 0 then "false" else "true") := by
    split <;> exact undivided_of_all (by decide)
  have hchildText : Undivided ("child" ++ toString i.mode.toNat) :=
    hchild.append (undivided_repr _)
  have hmode : Undivided (toString i.mode.toNat) := undivided_repr _
  unfold operandTexts
  cases i.opcode <;>
    simp only [List.forall_mem_cons, List.not_mem_nil, false_implies, implies_true, and_true,
      undivided_registerText, undivided_symbolText, undivided_toString, htruth, hchildText, hmode]

theorem undivided_mnemonicText (i : Instruction) : Undivided i.mnemonicText := by
  have harith : ∀ op : ArithOp, Undivided op.mnemonic := by
    intro op
    cases op <;> exact undivided_of_all (by decide)
  have hopcode : ∀ op : Opcode, Undivided op.mnemonic := by
    intro op
    cases op <;> exact undivided_of_all (by decide)
  have hunknown : Undivided "alu.?" := undivided_of_all (by decide)
  unfold mnemonicText arithText
  split
  · split
    · exact harith _
    · exact hunknown
  · exact hopcode _

/-! ### Text and its parts -/

theorem ne_comma_of_undivided {ts : List String} (h : ∀ t ∈ ts, Undivided t) :
    ∀ cs ∈ ts.map String.toList, ∀ c ∈ cs, c ≠ ',' := by
  intro cs hcs c hc
  obtain ⟨t, ht, rfl⟩ := List.mem_map.1 hcs
  rintro rfl
  exact h t ht ',' hc (by decide)

/-- Parts without a comma are found again between the commas. -/
theorem intercalate_inj {xs ys : List (List Char)} (hxs : ∀ cs ∈ xs, ∀ c ∈ cs, c ≠ ',')
    (hys : ∀ cs ∈ ys, ∀ c ∈ cs, c ≠ ',') (hx : xs ≠ []) (hy : ys ≠ [])
    (h : [',', ' '].intercalate xs = [',', ' '].intercalate ys) : xs = ys := by
  have happend : ∀ x x' : List Char, ∀ rest,
      [',', ' '].intercalate (x :: x' :: rest)
        = x ++ ',' :: ' ' :: [',', ' '].intercalate (x' :: rest) := by
    intro x x' rest
    rw [List.intercalate_cons_cons, List.append_assoc]
    rfl
  have hcomma : ∀ (x : List Char) (tail : List Char), ',' ∈ x ++ ',' :: tail := fun x tail =>
    List.mem_append_right x List.mem_cons_self
  induction xs generalizing ys with
  | nil => exact absurd rfl hx
  | cons x xs ih =>
    cases ys with
    | nil => exact absurd rfl hy
    | cons y ys =>
      have hxone := hxs x List.mem_cons_self
      have hyone := hys y List.mem_cons_self
      cases xs with
      | nil =>
        cases ys with
        | nil =>
          rw [List.intercalate_singleton, List.intercalate_singleton] at h
          rw [h]
        | cons y' ys =>
          rw [List.intercalate_singleton, happend] at h
          exact absurd rfl (hxone ',' (h ▸ hcomma y _))
      | cons x' xs =>
        cases ys with
        | nil =>
          rw [List.intercalate_singleton, happend] at h
          exact absurd rfl (hyone ',' (h ▸ hcomma x _))
        | cons y' ys =>
          rw [happend, happend] at h
          obtain ⟨rfl, -, hrest⟩ :=
            Text.append_cons_inj hxone hyone (not_not_intro rfl) (not_not_intro rfl) h
          have hih := ih (fun cs hcs => hxs cs (List.mem_cons_of_mem x hcs))
            (fun cs hcs => hys cs (List.mem_cons_of_mem x hcs)) (List.cons_ne_nil x' xs)
            (List.cons_ne_nil y' ys) (List.cons.inj hrest).2
          rw [hih]

/-- The characters of the text, in two parts. -/
theorem toList_text (i : Instruction) :
    i.text.toList = i.mnemonicText.toList
      ++ if i.operandTexts = [] then []
        else ' ' :: [',', ' '].intercalate (i.operandTexts.map String.toList) := by
  unfold text
  split
  · next h => rw [if_pos h, List.append_nil]
  · next h =>
    rw [if_neg h, String.toList_append, String.toList_append, String.toList_intercalate,
      List.append_assoc]
    rfl

/-- The text of an instruction is that of its mnemonic and its operands and of no others. -/
theorem parts_of_text (h : i.text = j.text) :
    i.mnemonicText = j.mnemonicText ∧ i.operandTexts = j.operandTexts := by
  have hblank : ∀ k : Instruction, ∀ c ∈ k.mnemonicText.toList, c ≠ ' ' := by
    rintro k c hc rfl
    exact undivided_mnemonicText k ' ' hc (by decide)
  have hlists := congrArg String.toList h
  rw [toList_text, toList_text] at hlists
  by_cases hi : i.operandTexts = []
  · by_cases hj : j.operandTexts = []
    · rw [if_pos hi, if_pos hj, List.append_nil, List.append_nil] at hlists
      exact ⟨String.toList_inj.1 hlists, hi.trans hj.symm⟩
    · rw [if_pos hi, if_neg hj, List.append_nil] at hlists
      exact absurd rfl (hblank i ' '
        (hlists ▸ List.mem_append_right _ List.mem_cons_self))
  · by_cases hj : j.operandTexts = []
    · rw [if_neg hi, if_pos hj, List.append_nil] at hlists
      exact absurd rfl (hblank j ' '
        (hlists ▸ List.mem_append_right _ List.mem_cons_self))
    · rw [if_neg hi, if_neg hj] at hlists
      obtain ⟨hmnemonic, -, hoperands⟩ := Text.append_cons_inj (hblank i) (hblank j)
        (not_not_intro rfl) (not_not_intro rfl) hlists
      have hmap := intercalate_inj (ne_comma_of_undivided (undivided_operandTexts i))
        (ne_comma_of_undivided (undivided_operandTexts j)) (mt List.map_eq_nil_iff.1 hi)
        (mt List.map_eq_nil_iff.1 hj) hoperands
      exact ⟨String.toList_inj.1 hmnemonic,
        List.map_injective_iff.2 (fun _ _ => String.toList_inj.1) hmap⟩

theorem mem_of_mem_intercalate {c : Char} {sep : List Char} {xs : List (List Char)}
    (h : c ∈ sep.intercalate xs) : c ∈ sep ∨ ∃ x ∈ xs, c ∈ x := by
  induction xs with
  | nil => cases h
  | cons x xs ih =>
    by_cases hxs : xs = []
    · rw [hxs, List.intercalate_singleton] at h
      exact Or.inr ⟨x, List.mem_cons_self, h⟩
    · rw [List.intercalate_cons_of_ne_nil hxs, List.append_assoc] at h
      rcases List.mem_append.1 h with h | h
      · exact Or.inr ⟨x, List.mem_cons_self, h⟩
      rcases List.mem_append.1 h with h | h
      · exact Or.inl h
      · refine (ih h).imp_right ?_
        rintro ⟨x', hx', hc⟩
        exact ⟨x', List.mem_cons_of_mem x hx', hc⟩

/-- A text stands in one line, and no comment begins in it. -/
theorem ne_of_mem_text (i : Instruction) : ∀ c ∈ i.text.toList, c ≠ ';' ∧ c ≠ '\n' := by
  have hundivided : ∀ {t : String}, Undivided t → ∀ c ∈ t.toList, c ≠ ';' ∧ c ≠ '\n' := by
    intro t ht c hc
    constructor
    · rintro rfl
      exact ht ';' hc (by decide)
    · rintro rfl
      exact ht '\n' hc (by decide)
  have hseparator : ∀ c ∈ [',', ' '], c ≠ ';' ∧ c ≠ '\n' := by simp
  intro c hc
  rw [toList_text] at hc
  rcases List.mem_append.1 hc with hc | hc
  · exact hundivided (undivided_mnemonicText i) c hc
  split at hc
  · cases hc
  rcases List.mem_cons.1 hc with rfl | hc
  · decide
  rcases mem_of_mem_intercalate hc with hc | ⟨part, hpart, hc⟩
  · exact hseparator c hc
  · obtain ⟨t, ht, rfl⟩ := List.mem_map.1 hpart
    exact hundivided (undivided_operandTexts i t ht) c hc

/-! ### What the parts show -/

theorem eq_of_mnemonic_eq {op op' : Opcode} (h : op.mnemonic = op'.mnemonic) : op = op' := by
  have hall : ∀ op ∈ Opcode.all, ∀ op' ∈ Opcode.all, op.mnemonic = op'.mnemonic → op = op' := by
    decide +kernel
  have hmem : ∀ op : Opcode, op ∈ Opcode.all := by
    intro op
    cases op <;> decide
  exact hall op (hmem op) op' (hmem op') h

/-- The mnemonic of an arithmetic instruction is none of the others. -/
theorem arithText_ne_mnemonic (mode : UInt8) (op : Opcode) : arithText mode ≠ op.mnemonic := by
  unfold arithText
  split
  · next a _ => cases a <;> cases op <;> decide
  · cases op <;> decide

theorem ofCode?_eq_of_arithText_eq {mode mode' : UInt8} (h : arithText mode = arithText mode') :
    ArithOp.ofCode? mode = ArithOp.ofCode? mode' := by
  unfold arithText at h
  cases ha : ArithOp.ofCode? mode with
  | none =>
    cases hb : ArithOp.ofCode? mode' with
    | none => rfl
    | some b =>
      rw [ha, hb] at h
      cases b <;> exact absurd h (by decide)
  | some a =>
    cases hb : ArithOp.ofCode? mode' with
    | none =>
      rw [ha, hb] at h
      cases a <;> exact absurd h (by decide)
    | some b =>
      rw [ha, hb] at h
      cases a <;> cases b <;> first | rfl | exact absurd h (by decide)

/-- The mnemonic shows the operation and, if it is an arithmetic one, which of these. -/
theorem operation_of_mnemonicText (h : i.mnemonicText = j.mnemonicText) :
    i.opcode = j.opcode
      ∧ (i.opcode = .arith → ArithOp.ofCode? i.mode = ArithOp.ofCode? j.mode) := by
  have hother : ∀ k : Instruction, k.opcode ≠ .arith → k.mnemonicText = k.opcode.mnemonic := by
    intro k hk
    unfold mnemonicText
    split
    · next harith => exact absurd harith hk
    · rfl
  have harith : ∀ k : Instruction, k.opcode = .arith → k.mnemonicText = arithText k.mode := by
    intro k hk
    rw [mnemonicText, hk]
  by_cases hi : i.opcode = .arith
  · by_cases hj : j.opcode = .arith
    · rw [harith i hi, harith j hj] at h
      exact ⟨hi.trans hj.symm, fun _ => ofCode?_eq_of_arithText_eq h⟩
    · rw [harith i hi, hother j hj] at h
      exact absurd h (arithText_ne_mnemonic _ _)
  · by_cases hj : j.opcode = .arith
    · rw [hother i hi, harith j hj] at h
      exact absurd h.symm (arithText_ne_mnemonic _ _)
    · rw [hother i hi, hother j hj] at h
      exact ⟨eq_of_mnemonic_eq h, fun heq => absurd heq hi⟩

theorem toString_toNat_inj {r s : UInt8} : toString r.toNat = toString s.toNat ↔ r = s :=
  ⟨fun h => UInt8.toNat_inj.1 (Text.toString_nat_inj h), fun h => h ▸ rfl⟩

theorem toString_toInt_inj {m n : Int32} : toString m.toInt = toString n.toInt ↔ m = n :=
  ⟨fun h => Int32.toInt_inj.1 (Text.toString_int_inj h), fun h => h ▸ rfl⟩

theorem registerText_inj {r s : UInt8} : registerText r = registerText s ↔ r = s := by
  rw [registerText, registerText, String.append_right_inj, toString_toNat_inj]

theorem symbolText_inj {m n : Int32} : symbolText m = symbolText n ↔ m = n := by
  rw [symbolText, symbolText, String.append_right_inj, toString_toInt_inj]

/-- Instructions with the same text are alike in all that their texts show. -/
theorem shown_eq_of_text_eq (h : i.text = j.text) : i.shown = j.shown := by
  obtain ⟨hmnemonic, hoperands⟩ := parts_of_text h
  obtain ⟨hopcode, hmode⟩ := operation_of_mnemonicText hmnemonic
  obtain ⟨op, dest, src1, src2, mode, imm⟩ := i
  obtain ⟨op', dest', src1', src2', mode', imm'⟩ := j
  obtain rfl : op = op' := hopcode
  cases op
  case arith =>
    have hmode := hmode rfl
    simp only [operandTexts, List.cons.injEq, registerText_inj, and_true] at hoperands
    obtain ⟨rfl, rfl, rfl⟩ := hoperands
    simp only [shown, hmode]
  case loadBool =>
    simp only [operandTexts, List.cons.injEq, registerText_inj, and_true] at hoperands
    obtain ⟨rfl, htext⟩ := hoperands
    have htruth : imm = 0 ↔ imm' = 0 := by
      by_cases hzero : imm = 0
      · by_cases hzero' : imm' = 0
        · exact iff_of_true hzero hzero'
        · simp [hzero, hzero'] at htext
      · by_cases hzero' : imm' = 0
        · simp [hzero, hzero'] at htext
        · exact iff_of_false hzero hzero'
    simp only [shown, htruth]
  all_goals
    simp only [operandTexts, List.cons.injEq, registerText_inj, symbolText_inj,
      toString_toInt_inj, toString_toNat_inj, String.append_right_inj, and_true] at hoperands
    simp only [shown, hoperands]

end ModuleHost.Instruction
