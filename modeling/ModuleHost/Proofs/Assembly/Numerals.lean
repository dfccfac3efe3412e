import ModuleHost.Assembly.Operand
import Mathlib.Data.Nat.Digits.Defs
import Mathlib.Tactic.Ring

/-!
# Numbers as operands

Which texts are read as a register, an immediate or a count of arguments, and as which number.  A
number is written by digits of a base (`Writes`), and the readers of digits find exactly the number
that is written (`digits?_eq_some_iff`).  In front of the digits they pass over a sign of their own:
behind the letter of a register, and behind the minus sign and the base of an immediate, where a
sign has been looked for already, another one is taken (`register_eq_ok_iff`,
`immediate_eq_ok_iff`, `argumentCount_eq_ok_iff`).
-/

namespace ModuleHost

namespace Text

/-! ### Digits -/

/-- The digits of all bases up to sixteen, each at the place of its value. -/
def digitRow : List Char :=
  ['0', '1', '2', '3', '4', '5', '6', '7', '8', '9', 'a', 'b', 'c', 'd', 'e', 'f']

/-- The value of a digit, which is a letter in either case or a decimal digit; sixteen for all other
characters. -/
def digitNumber (c : Char) : Nat := digitRow.idxOf c.toLower

/-- `digits` are one or more digits of the base, and `n` is the number that they write. -/
structure Writes (base : Nat) (digits : List Char) (n : Nat) : Prop where
  nonempty : digits ≠ []
  valid : ∀ c ∈ digits, digitNumber c < base
  value : n = Nat.ofDigits base (digits.reverse.map digitNumber)

variable {base : Nat} {c : Char} {cs digits : List Char} {n : Nat}

/-- Characters of ASCII are looked at one by one. -/
theorem forall_ascii {p : Char → Prop} (h : ∀ k : Fin 128, p (Char.ofNat k)) (hc : c.toNat < 128) :
    p c := by
  have hp := h ⟨c.toNat, hc⟩
  rwa [Char.ofNat_toNat] at hp

/-- Behind ASCII there are no digits. -/
theorem digitNumber_of_le (hc : 128 ≤ c.toNat) : digitNumber c = 16 := by
  have hlower : c.toLower = c := dif_neg fun h => by
    have hz : c.toNat ≤ 'Z'.toNat := UInt32.le_iff_toNat_le.1 h.2
    exact absurd (Nat.le_trans hc hz) (by decide)
  have hrow : digitRow.all (fun d => d.toNat < 128) = true := by decide
  have hnone : c ∉ digitRow := fun hmem =>
    Nat.not_lt.2 hc (of_decide_eq_true (List.all_eq_true.1 hrow c hmem))
  rw [digitNumber, hlower, List.idxOf_eq_length hnone]
  rfl

theorem digitValue?_sixteen (c : Char) :
    digitValue? 16 c = if digitNumber c < 16 then some (digitNumber c) else none := by
  by_cases hc : c.toNat < 128
  · exact forall_ascii
      (p := fun c => digitValue? 16 c = if digitNumber c < 16 then some (digitNumber c) else none)
      (by decide) hc
  · have hhigh : 128 ≤ c.toNat := Nat.not_lt.1 hc
    have hout : ∀ low high : Char, high.toNat < 128 → ¬ (low ≤ c ∧ c ≤ high) := by
      intro low high hlt h
      have hle : c.toNat ≤ high.toNat := UInt32.le_iff_toNat_le.1 h.2
      omega
    rw [digitValue?, if_neg (hout _ _ (by decide)), if_neg (hout _ _ (by decide)),
      if_neg (hout _ _ (by decide)), digitNumber_of_le hhigh]
    rfl

theorem digitValue?_eq_some_iff (hbase : base ≤ 16) {d : Nat} :
    digitValue? base c = some d ↔ digitNumber c < base ∧ d = digitNumber c := by
  have hfilter : digitValue? base c = (digitValue? 16 c).filter fun d => decide (d < base) := by
    rw [digitValue?, digitValue?, Option.filter_filter]
    refine congrArg (fun p => Option.filter p _) (funext fun d => ?_)
    grind
  rw [hfilter, digitValue?_sixteen]
  by_cases h : digitNumber c < 16
  · rw [if_pos h, Option.filter_eq_some_iff]
    grind
  · rw [if_neg h]
    grind

/-- Digits are appended to a number one after the other. -/
theorem appendDigits?_eq_some_iff (hbase : base ≤ 16) {start : Nat} :
    appendDigits? base start cs = some n ↔ (∀ c ∈ cs, digitNumber c < base)
      ∧ n = Nat.ofDigits base (cs.reverse.map digitNumber) + base ^ cs.length * start := by
  induction cs generalizing start with
  | nil => simp [appendDigits?, eq_comm]
  | cons c cs ih =>
    rw [appendDigits?, bind, Monad.toBind, instMonadOption]
    simp only [Option.bind_eq_some_iff, digitValue?_eq_some_iff hbase, ih, List.forall_mem_cons,
      List.reverse_cons, List.map_append, Nat.ofDigits_append, List.length_map, List.length_reverse, List.map_cons,
      List.map_nil, Nat.ofDigits_singleton, List.length_cons]
    have hvalue : ∀ rest : Nat, rest + base ^ cs.length * (start * base + digitNumber c)
        = rest + base ^ cs.length * digitNumber c + base ^ (cs.length + 1) * start := by
      intro rest
      ring
    constructor
    · rintro ⟨d, ⟨hc, rfl⟩, hcs, rfl⟩
      exact ⟨⟨hc, hcs⟩, hvalue _⟩
    · rintro ⟨⟨hc, hcs⟩, rfl⟩
      exact ⟨_, ⟨hc, rfl⟩, hcs, (hvalue _).symm⟩

theorem digits?_eq_some_iff (hbase : base ≤ 16) : digits? base cs = some n ↔ Writes base cs n := by
  rw [digits?]
  cases cs with
  | nil => exact iff_of_false nofun fun h => h.nonempty rfl
  | cons c cs =>
    rw [List.isEmpty_cons, if_neg Bool.false_ne_true, appendDigits?_eq_some_iff hbase,
      Nat.mul_zero, Nat.add_zero]
    exact ⟨fun h => ⟨List.cons_ne_nil c cs, h.1, h.2⟩, fun h => ⟨h.valid, h.value⟩⟩

theorem Writes.head (h : Writes base (c :: cs) n) : digitNumber c < base :=
  h.valid c List.mem_cons_self

/-! ### Signs -/

inductive Sign where
  | none
  | plus
  | minus
deriving DecidableEq, Repr

namespace Sign

def text : Sign → List Char
  | none => []
  | plus => ['+']
  | minus => ['-']

def applied : Sign → Int → Int
  | minus, n => -n
  | _, n => n

end Sign

theorem unsigned?_eq_some_iff (hbase : base ≤ 16) : unsigned? base cs = some n
    ↔ ∃ (sign : Sign) (digits : List Char), sign ≠ .minus ∧ cs = sign.text ++ digits
      ∧ Writes base digits n := by
  have hplus : ¬ digitNumber '+' < base := Nat.not_lt.2 hbase
  constructor
  · intro h
    unfold unsigned? at h
    split at h
    · next digits => exact ⟨.plus, digits, nofun, rfl, (digits?_eq_some_iff hbase).1 h⟩
    · exact ⟨.none, cs, nofun, rfl, (digits?_eq_some_iff hbase).1 h⟩
  · rintro ⟨sign, digits, hsign, rfl, hdigits⟩
    have hread := (digits?_eq_some_iff hbase).2 hdigits
    cases sign with
    | minus => exact absurd rfl hsign
    | plus => exact hread
    | none =>
      unfold unsigned?
      split
      · next heq =>
        subst heq
        exact absurd hdigits.head hplus
      · exact hread

theorem signed?_minus (cs : List Char) :
    signed? base ('-' :: cs) = (digits? base cs).map fun n => -Int.ofNat n := by
  rw [signed?]
  cases digits? base cs <;> rfl

theorem signed?_of_ne (h : ∀ rest, cs ≠ '-' :: rest) :
    signed? base cs = (unsigned? base cs).map Int.ofNat := by
  rw [signed?]
  · cases unsigned? base cs <;> rfl
  · exact h

theorem signed?_eq_some_iff (hbase : base ≤ 16) {i : Int} : signed? base cs = some i
    ↔ ∃ (sign : Sign) (digits : List Char) (n : Nat),
      cs = sign.text ++ digits ∧ Writes base digits n ∧ i = sign.applied n := by
  have hminus : ¬ digitNumber '-' < base := Nat.not_lt.2 hbase
  by_cases hcs : ∃ rest, cs = '-' :: rest
  · obtain ⟨rest, rfl⟩ := hcs
    rw [signed?_minus, Option.map_eq_some_iff]
    constructor
    · rintro ⟨n, hn, rfl⟩
      exact ⟨.minus, rest, n, rfl, (digits?_eq_some_iff hbase).1 hn, rfl⟩
    · rintro ⟨sign, digits, n, heq, hdigits, rfl⟩
      cases sign with
      | none =>
        obtain rfl : '-' :: rest = digits := heq
        exact absurd hdigits.head hminus
      | plus => exact absurd (List.cons.inj heq).1 (by decide)
      | minus =>
        obtain rfl : rest = digits := (List.cons.inj heq).2
        exact ⟨n, (digits?_eq_some_iff hbase).2 hdigits, rfl⟩
  · rw [signed?_of_ne fun rest heq => hcs ⟨rest, heq⟩, Option.map_eq_some_iff]
    simp only [unsigned?_eq_some_iff hbase]
    constructor
    · rintro ⟨n, ⟨sign, digits, hsign, rfl, hdigits⟩, rfl⟩
      refine ⟨sign, digits, n, rfl, hdigits, ?_⟩
      cases sign with
      | minus => exact absurd rfl hsign
      | plus | none => rfl
    · rintro ⟨sign, digits, n, rfl, hdigits, rfl⟩
      cases sign with
      | minus => exact absurd ⟨digits, rfl⟩ hcs
      | plus => exact ⟨n, ⟨.plus, digits, nofun, rfl, hdigits⟩, rfl⟩
      | none => exact ⟨n, ⟨.none, digits, nofun, rfl, hdigits⟩, rfl⟩

end Text

namespace Assembly

open Text

/-! ### Operands -/

inductive Radix where
  | ten
  | sixteen
deriving DecidableEq, Repr

namespace Radix

def base : Radix → Nat
  | ten => 10
  | sixteen => 16

def mark : Radix → List Char
  | ten => []
  | sixteen => ['0', 'x']

theorem base_le (r : Radix) : r.base ≤ 16 := by cases r <;> decide

end Radix

variable {operand : List Char}

theorem number?_eq_some_iff {i : Int} : number? operand = some i
    ↔ ∃ (radix : Radix) (sign : Sign) (digits : List Char) (n : Nat),
      operand = radix.mark ++ (sign.text ++ digits) ∧ Writes radix.base digits n
        ∧ i = sign.applied n := by
  constructor
  · intro h
    unfold number? at h
    split at h
    · obtain ⟨sign, digits, n, rfl, hdigits, rfl⟩ := (signed?_eq_some_iff (by decide)).1 h
      exact ⟨.sixteen, sign, digits, n, rfl, hdigits, rfl⟩
    · obtain ⟨sign, digits, n, rfl, hdigits, rfl⟩ := (signed?_eq_some_iff (by decide)).1 h
      exact ⟨.ten, sign, digits, n, rfl, hdigits, rfl⟩
  · rintro ⟨radix, sign, digits, n, rfl, hdigits, rfl⟩
    have hread : signed? radix.base (sign.text ++ digits) = some (sign.applied n) :=
      (signed?_eq_some_iff radix.base_le).2 ⟨sign, digits, n, rfl, hdigits, rfl⟩
    cases radix with
    | sixteen => exact hread
    | ten =>
      show number? (sign.text ++ digits) = _
      unfold number?
      split
      · next rest heq =>
        -- an x is no decimal digit
        have hx : 'x' ∈ digits := by
          cases sign with
          | none =>
            have heq : digits = '0' :: 'x' :: rest := heq
            exact heq ▸ List.mem_cons_of_mem '0' List.mem_cons_self
          | plus | minus => exact absurd (List.cons.inj heq).1 (by decide)
        exact absurd (hdigits.valid 'x' hx) (by decide)
      · exact hread

def minusText (negated : Bool) : List Char := if negated then ['-'] else []

theorem immediateValue?_eq_some_iff {i : Int} : immediateValue? operand = some i
    ↔ ∃ (negated : Bool) (radix : Radix) (sign : Sign) (digits : List Char) (n : Nat),
      operand = minusText negated ++ (radix.mark ++ (sign.text ++ digits))
        ∧ Writes radix.base digits n
        ∧ i = if negated then -sign.applied n else sign.applied n := by
  constructor
  · intro h
    unfold immediateValue? at h
    split at h
    · obtain ⟨j, hj, rfl⟩ := Option.map_eq_some_iff.1 h
      obtain ⟨radix, sign, digits, n, rfl, hdigits, rfl⟩ := number?_eq_some_iff.1 hj
      exact ⟨true, radix, sign, digits, n, rfl, hdigits, rfl⟩
    · obtain ⟨radix, sign, digits, n, rfl, hdigits, rfl⟩ := number?_eq_some_iff.1 h
      exact ⟨false, radix, sign, digits, n, rfl, hdigits, rfl⟩
  · rintro ⟨negated, radix, sign, digits, n, rfl, hdigits, rfl⟩
    have hread : number? (radix.mark ++ (sign.text ++ digits)) = some (sign.applied n) :=
      number?_eq_some_iff.2 ⟨radix, sign, digits, n, rfl, hdigits, rfl⟩
    cases negated with
    | true => exact congrArg (Option.map (- ·)) hread
    | false =>
      show immediateValue? (radix.mark ++ (sign.text ++ digits)) = _
      unfold immediateValue?
      split
      · next rest heq =>
        cases radix with
        | sixteen => exact absurd (List.cons.inj heq).1 (by decide)
        | ten =>
          cases sign with
          | none =>
            obtain rfl : digits = '-' :: rest := heq
            exact absurd hdigits.head (by decide)
          | plus => exact absurd (List.cons.inj heq).1 (by decide)
          | minus =>
            -- the minus sign is taken before the digits are looked at
            obtain rfl : digits = rest := (List.cons.inj heq).2
            have hdigits : number? digits = some (n : Int) :=
              number?_eq_some_iff.2 ⟨.ten, .none, digits, n, rfl, hdigits, rfl⟩
            rw [hdigits]
            rfl
      · exact hread

/-- A register is its letter and a number below 32; a plus sign in front of the number is passed
over. -/
theorem register_eq_ok_iff {r : UInt8} : register operand = .ok r
    ↔ ∃ (letter : Char) (sign : Sign) (digits : List Char), (letter = 'r' ∨ letter = 'R')
      ∧ sign ≠ .minus ∧ operand = letter :: (sign.text ++ digits)
      ∧ Writes 10 digits r.toNat ∧ r.toNat < 32 := by
  constructor
  · intro h
    unfold register at h
    dsimp only at h
    split at h
    · next n hn =>
      split at h
      · next hlt =>
        cases h
        have hr : (UInt8.ofNat n).toNat = n :=
          UInt8.toNat_ofNat_of_lt' (Nat.lt_trans hlt (by decide))
        rw [hr]
        split at hn
        · obtain ⟨sign, digits, hsign, rfl, hdigits⟩ := (unsigned?_eq_some_iff (by decide)).1 hn
          exact ⟨'r', sign, digits, .inl rfl, hsign, rfl, hdigits, hlt⟩
        · obtain ⟨sign, digits, hsign, rfl, hdigits⟩ := (unsigned?_eq_some_iff (by decide)).1 hn
          exact ⟨'R', sign, digits, .inr rfl, hsign, rfl, hdigits, hlt⟩
        · cases hn
      · cases h
    · cases h
  · rintro ⟨letter, sign, digits, hletter, hsign, rfl, hdigits, hlt⟩
    have hread : unsigned? 10 (sign.text ++ digits) = some r.toNat :=
      (unsigned?_eq_some_iff (by decide)).2 ⟨sign, digits, hsign, rfl, hdigits⟩
    rcases hletter with rfl | rfl <;>
    · rw [register, hread]
      dsimp only
      rw [registerCount, if_pos hlt, UInt8.ofNat_toNat]

/-- An immediate is a number in one of two bases that fits in 32 bits, with a minus sign in front of
all or not; one more sign in front of the digits is applied as well. -/
theorem immediate_eq_ok_iff {v : Int32} : immediate operand = .ok v
    ↔ ∃ (negated : Bool) (radix : Radix) (sign : Sign) (digits : List Char) (n : Nat),
      operand = minusText negated ++ (radix.mark ++ (sign.text ++ digits))
        ∧ Writes radix.base digits n
        ∧ v.toInt = if negated then -sign.applied n else sign.applied n := by
  rw [← immediateValue?_eq_some_iff]
  constructor
  · intro h
    unfold immediate at h
    split at h
    · next i hi =>
      split at h
      · next hrange =>
        cases h
        rw [hi, Int32.toInt_ofInt_of_le hrange.1 (Int.lt_add_one_iff.2 hrange.2)]
      · cases h
    · cases h
  · intro h
    rw [immediate, h]
    dsimp only
    rw [if_pos ⟨v.minValue_le_toInt, v.toInt_le⟩, Int32.ofInt_toInt]

/-- A count of arguments is a number below 256, with or without a plus sign. -/
theorem argumentCount_eq_ok_iff {count : UInt8} : argumentCount operand = .ok count
    ↔ ∃ (sign : Sign) (digits : List Char), sign ≠ .minus ∧ operand = sign.text ++ digits
      ∧ Writes 10 digits count.toNat := by
  rw [← unsigned?_eq_some_iff (by decide)]
  constructor
  · intro h
    unfold argumentCount at h
    split at h
    · next n hn =>
      split at h
      · next hlt =>
        cases h
        rw [hn, UInt8.toNat_ofNat_of_lt' hlt]
      · cases h
    · cases h
  · intro h
    rw [argumentCount, h]
    dsimp only
    rw [if_pos count.toNat_lt, UInt8.ofNat_toNat]

/-- **Numbers as operands.**  What is read as a register, as an immediate and as a count of
arguments is a number written by digits, and the result is that number.  It is more than the letter,
the minus sign, the base and the digits: each number may have a sign of its own, right in front of
its digits, also where there is a minus sign already. -/
theorem numerals_read (operand : List Char) :
    (∀ r : UInt8, register operand = .ok r
      ↔ ∃ (letter : Char) (sign : Sign) (digits : List Char), (letter = 'r' ∨ letter = 'R')
        ∧ sign ≠ .minus ∧ operand = letter :: (sign.text ++ digits)
        ∧ Writes 10 digits r.toNat ∧ r.toNat < 32)
    ∧ (∀ v : Int32, immediate operand = .ok v
      ↔ ∃ (negated : Bool) (radix : Radix) (sign : Sign) (digits : List Char) (n : Nat),
        operand = minusText negated ++ (radix.mark ++ (sign.text ++ digits))
          ∧ Writes radix.base digits n
          ∧ v.toInt = if negated then -sign.applied n else sign.applied n)
    ∧ ∀ count : UInt8, argumentCount operand = .ok count
      ↔ ∃ (sign : Sign) (digits : List Char), sign ≠ .minus ∧ operand = sign.text ++ digits
        ∧ Writes 10 digits count.toNat :=
  ⟨fun _ => register_eq_ok_iff, fun _ => immediate_eq_ok_iff, fun _ => argumentCount_eq_ok_iff⟩

/-- The text `--5` is read as 5, although it is not one minus sign and a number. -/
theorem immediate_two_signs : immediate ['-', '-', '5'] = .ok 5
    ∧ ¬ ∃ (negated : Bool) (radix : Radix) (digits : List Char) (n : Nat),
      ['-', '-', '5'] = minusText negated ++ (radix.mark ++ digits)
        ∧ Writes radix.base digits n := by
  refine ⟨by decide, ?_⟩
  rintro ⟨negated, radix, digits, n, heq, hdigits⟩
  have hminus : '-' ∈ digits := by
    cases negated <;> cases radix <;> simp [minusText, Radix.mark] at heq <;> simp [← heq]
  exact absurd (hdigits.valid '-' hminus) (by cases radix <;> decide)

end Assembly

end ModuleHost
