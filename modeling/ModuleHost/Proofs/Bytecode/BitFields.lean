import ModuleHost.Proofs.Bytecode.Instructions
import Mathlib.Data.Nat.Bitwise

/-!
# The bit fields of an instruction

The first word of an encoded instruction can be put together bit by bit: every field is cut to its
width and shifted to its place (`packed`), and each is found again by shifting it back and cutting
off what lies above it (`unpacked?`).  These are the words and the fields that encoding and decoding
work with (`toNat_packed`, `ofWords?_toNat`), since no field reaches into another.  Main statement:
`encoding_laws`, by which decoding undoes encoding but for the high bits of registers, and encoding
undoes decoding but for the spare bits.
-/

namespace ModuleHost.Instruction

/-- The first word with every field at its place. -/
def packed (i : Instruction) : UInt32 :=
  UInt32.ofNat i.opcode.code <<< 26 ||| (i.dest.toUInt32 &&& 0x1F) <<< 21
    ||| (i.src1.toUInt32 &&& 0x1F) <<< 16 ||| (i.src2.toUInt32 &&& 0x1F) <<< 11
    ||| i.mode.toUInt32 <<< 3

/-- The instruction whose fields stand in `word`, if its operation is one. -/
def unpacked? (word imm : UInt32) : Option Instruction :=
  (Opcode.ofCode? (word >>> 26 &&& 0x3F).toNat).map fun opcode =>
    { opcode
      dest := (word >>> 21 &&& 0x1F).toUInt8
      src1 := (word >>> 16 &&& 0x1F).toUInt8
      src2 := (word >>> 11 &&& 0x1F).toUInt8
      mode := (word >>> 3 &&& 0xFF).toUInt8
      imm := imm.toInt32 }

def wordAt (bytes : List UInt8) (start : Nat) : UInt32 :=
  UInt32.ofNat (Bytes.ofLittleEndian ((bytes.drop start).take 4))

/-- There is a whole instruction in front, and the six high bits of its first word are the number of
an operation. -/
def NamesOperation (bytes : List UInt8) : Prop :=
  encodedSize ≤ bytes.length ∧ (wordAt bytes 0 >>> 26).toNat ∈ Opcode.all.map Opcode.code

instance (bytes : List UInt8) : Decidable (NamesOperation bytes) :=
  inferInstanceAs (Decidable (_ ∧ _))

/-! ### Shifts and masks -/

/-- A field is put below others by setting its bits. -/
theorem or_eq_add {a b k : Nat} (ha : 2 ^ k ∣ a) (hb : b < 2 ^ k) : a ||| b = a + b := by
  obtain ⟨c, rfl⟩ := ha
  exact (Nat.two_pow_add_eq_or_of_lt hb c).symm

theorem and_mask (x k : Nat) {mask : Nat} (h : mask = 2 ^ k - 1) : x &&& mask = x % 2 ^ k := by
  rw [h, Nat.and_two_pow_sub_one_eq_mod]

theorem toNat_register (r : UInt8) : (r.toUInt32 &&& 0x1F).toNat = r.toNat % 32 := by
  rw [UInt32.toNat_and, UInt8.toNat_toUInt32]
  exact and_mask _ 5 rfl

/-- A field is found by shifting it back and cutting off what lies above it. -/
theorem toNat_field (word : UInt32) (shift mask : UInt32) (k : Nat) (hshift : shift.toNat < 32)
    (hmask : mask.toNat = 2 ^ k - 1) :
    (word >>> shift &&& mask).toNat = word.toNat / 2 ^ shift.toNat % 2 ^ k := by
  rw [UInt32.toNat_and, UInt32.toNat_shiftRight, Nat.mod_eq_of_lt hshift, Nat.shiftRight_eq_div_pow]
  exact and_mask _ k hmask

theorem toUInt8_eq_ofNat (x : UInt32) : x.toUInt8 = UInt8.ofNat x.toNat := by
  apply UInt8.toNat_inj.1
  simp

theorem toNat_clearSpare (word : UInt32) : (word &&& 0xFFFFFFF8).toNat = word.toNat / 8 * 8 := by
  have hword := word.toNat_lt
  have hmask : (0xFFFFFFF8 : UInt32).toNat = (2 ^ 29 - 1) <<< 3 := rfl
  have hcut : word.toNat / 8 * 8 = (word.toNat >>> 3) <<< 3 := by
    rw [Nat.shiftLeft_eq, Nat.shiftRight_eq_div_pow]
  rw [UInt32.toNat_and, hmask, hcut]
  apply Nat.eq_of_testBit_eq
  intro n
  rw [Nat.testBit_and, Nat.testBit_shiftLeft, Nat.testBit_shiftLeft, Nat.testBit_shiftRight,
    Nat.testBit_two_pow_sub_one]
  by_cases hlow : n < 3
  · simp [Nat.not_le.2 hlow]
  by_cases hhigh : n < 32
  · have hn : 3 + (n - 3) = n := by omega
    have hn' : n - 3 < 29 := by omega
    simp [hn, hn', Nat.not_lt.1 hlow]
  · have hbit : word.toNat.testBit n = false :=
      Nat.testBit_lt_two_pow
        (Nat.lt_of_lt_of_le hword (Nat.pow_le_pow_right (by decide) (by omega)))
    have hn : 3 + (n - 3) = n := by omega
    simp [hn, hbit]

/-! ### Words -/

/-- The fields do not overlap, so setting their bits adds them up. -/
theorem toNat_packed (i : Instruction) : i.packed.toNat = i.fieldWord := by
  have hop := i.opcode.code_lt
  have hmode := i.mode.toNat_lt
  have hdest := Nat.mod_lt i.dest.toNat (show 32 > 0 by decide)
  have hsrc1 := Nat.mod_lt i.src1.toNat (show 32 > 0 by decide)
  have hsrc2 := Nat.mod_lt i.src2.toNat (show 32 > 0 by decide)
  have hcode : (UInt32.ofNat i.opcode.code).toNat = i.opcode.code :=
    UInt32.toNat_ofNat_of_lt' (Nat.lt_trans hop (by decide))
  have hfit : ∀ n shift : Nat, n * 2 ^ shift < 2 ^ 32 → n <<< shift % 2 ^ 32 = n * 2 ^ shift := by
    intro n shift h
    rw [Nat.shiftLeft_eq, Nat.mod_eq_of_lt h]
  have hword : i.packed.toNat = i.opcode.code * 2 ^ 26 ||| i.dest.toNat % 32 * 2 ^ 21
      ||| i.src1.toNat % 32 * 2 ^ 16 ||| i.src2.toNat % 32 * 2 ^ 11 ||| i.mode.toNat * 2 ^ 3 := by
    simp only [packed, UInt32.toNat_or, UInt32.toNat_shiftLeft, toNat_register, hcode,
      UInt8.toNat_toUInt32]
    rw [← hfit, ← hfit, ← hfit, ← hfit, ← hfit]
    · rfl
    all_goals omega
  -- from the highest field down, what lies below is less than a unit of what has been put together
  rw [hword, or_eq_add (k := 26) (b := i.dest.toNat % 32 * 2 ^ 21),
    or_eq_add (k := 21) (b := i.src1.toNat % 32 * 2 ^ 16),
    or_eq_add (k := 16) (b := i.src2.toNat % 32 * 2 ^ 11),
    or_eq_add (k := 11) (b := i.mode.toNat * 2 ^ 3)]
  · rfl
  all_goals omega

theorem ofWords?_toNat (word imm : UInt32) :
    ofWords? word.toNat imm.toNat = unpacked? word imm := by
  have hregister : ∀ shift : UInt32, shift.toNat < 32 →
      (word >>> shift &&& 0x1F).toUInt8 = UInt8.ofNat (word.toNat / 2 ^ shift.toNat % 32) := by
    intro shift h
    rw [toUInt8_eq_ofNat, toNat_field word shift 0x1F 5 h rfl]
    rfl
  rw [ofWords?, unpacked?, toNat_field word 26 0x3F 6 (by decide) rfl, hregister 21 (by decide),
    hregister 16 (by decide), hregister 11 (by decide), toUInt8_eq_ofNat,
    toNat_field word 3 0xFF 8 (by decide) rfl, UInt32.ofNat_toNat]
  rfl

/-! ### Encoding and decoding -/

theorem encode_eq_packed (i : Instruction) :
    i.encode
      = Bytes.littleEndian 4 i.packed.toNat ++ Bytes.littleEndian 4 i.imm.toUInt32.toNat := by
  rw [encode, toNat_packed]

theorem toNat_wordAt (bytes : List UInt8) (start : Nat) :
    (wordAt bytes start).toNat = Bytes.ofLittleEndian ((bytes.drop start).take 4) := by
  have hlength : ((bytes.drop start).take 4).length ≤ 4 := List.length_take_le ..
  have hlt := Bytes.ofLittleEndian_lt ((bytes.drop start).take 4)
  have hcapacity : ∀ n ≤ 4, Bytes.capacity n ≤ 2 ^ 32 := by decide
  rw [wordAt, UInt32.toNat_ofNat_of_lt' (Nat.lt_of_lt_of_le hlt (hcapacity _ hlength))]

theorem decode?_eq_unpacked {bytes : List UInt8} (h : encodedSize ≤ bytes.length) :
    decode? bytes = unpacked? (wordAt bytes 0) (wordAt bytes 4) := by
  rw [decode?, if_neg (Nat.not_lt.2 h), ← ofWords?_toNat, toNat_wordAt, toNat_wordAt,
    List.drop_zero]

/-- The six high bits of a word are not cut off by the mask. -/
theorem toNat_operation (word : UInt32) : (word >>> 26 &&& 0x3F).toNat = (word >>> 26).toNat := by
  have hword := word.toNat_lt
  have hshift : (word >>> 26).toNat = word.toNat / 2 ^ 26 := by
    rw [UInt32.toNat_shiftRight, Nat.shiftRight_eq_div_pow]
    rfl
  have hfield : (word >>> 26 &&& 0x3F).toNat = word.toNat / 2 ^ 26 % 2 ^ 6 :=
    toNat_field word 26 0x3F 6 (by decide) rfl
  rw [hfield, hshift]
  omega

theorem exists_ofCode?_iff {n : Nat} :
    (∃ op, Opcode.ofCode? n = some op) ↔ n ∈ Opcode.all.map Opcode.code := by
  rw [List.mem_map]
  constructor
  · rintro ⟨op, hop⟩
    exact ⟨op, List.mem_of_getElem? hop, Opcode.code_of_ofCode? hop⟩
  · rintro ⟨op, -, rfl⟩
    exact ⟨op, Opcode.ofCode?_code op⟩

theorem exists_decode?_iff {bytes : List UInt8} :
    (∃ i, decode? bytes = some i) ↔ NamesOperation bytes := by
  by_cases hlength : encodedSize ≤ bytes.length
  · simp only [decode?_eq_unpacked hlength, unpacked?, toNat_operation, Option.map_eq_some_iff]
    constructor
    · rintro ⟨-, op, hop, -⟩
      exact ⟨hlength, exists_ofCode?_iff.1 ⟨op, hop⟩⟩
    · rintro ⟨-, hcode⟩
      obtain ⟨op, hop⟩ := exists_ofCode?_iff.2 hcode
      exact ⟨_, op, hop, rfl⟩
  · constructor
    · rintro ⟨i, h⟩
      rw [decode?, if_pos (Nat.lt_of_not_le hlength)] at h
      cases h
    · intro h
      exact absurd h.1 hlength

/-- Encoding what has been decoded gives back both words, the first one without its spare bits. -/
theorem words_of_decode? {bytes : List UInt8} {i : Instruction} (h : decode? bytes = some i) :
    i.packed = wordAt bytes 0 &&& 0xFFFFFFF8 ∧ i.imm.toUInt32 = wordAt bytes 4
      ∧ i.RegistersValid := by
  have hlength : encodedSize ≤ bytes.length := (exists_decode?_iff.1 ⟨i, h⟩).1
  rw [decode?_eq_unpacked hlength, ← ofWords?_toNat] at h
  obtain ⟨hfields, himm, hvalid⟩ :=
    words_of_ofWords? (wordAt bytes 0).toNat_lt (wordAt bytes 4).toNat_lt h
  refine ⟨?_, UInt32.toNat_inj.1 himm, hvalid⟩
  apply UInt32.toNat_inj.1
  rw [toNat_packed, hfields, toNat_clearSpare]

theorem littleEndian_wordAt {bytes : List UInt8} (start : Nat) (h : start + 4 ≤ bytes.length) :
    Bytes.littleEndian 4 (wordAt bytes start).toNat = (bytes.drop start).take 4 := by
  have hfour : ((bytes.drop start).take 4).length = 4 := by
    rw [List.length_take, List.length_drop]
    omega
  have hbytes := Bytes.littleEndian_ofLittleEndian ((bytes.drop start).take 4)
  rw [hfour] at hbytes
  rw [toNat_wordAt, hbytes]

/-- An instruction is written as its packed word and its immediate, and read from the fields of two
words.  Decoding undoes encoding, but for the registers, which are kept modulo 32.  The other way
round, at least eight bytes whose first word has the number of an operation in its six high bits are
decoded, and encoding gives back the first eight of them with the three low bits of the first word
cleared; all other bytes are not decoded. -/
theorem encoding_laws :
    (∀ i : Instruction, i.encode
        = Bytes.littleEndian 4 i.packed.toNat ++ Bytes.littleEndian 4 i.imm.toUInt32.toNat)
      ∧ (∀ bytes, encodedSize ≤ bytes.length →
        decode? bytes = unpacked? (wordAt bytes 0) (wordAt bytes 4))
      ∧ (∀ i : Instruction, decode? i.encode = some i.maskRegisters)
      ∧ (∀ i : Instruction, i.RegistersValid → decode? i.encode = some i)
      ∧ (∀ bytes, NamesOperation bytes → ∃ i, decode? bytes = some i
        ∧ i.encode = Bytes.littleEndian 4 (wordAt bytes 0 &&& 0xFFFFFFF8).toNat
          ++ (bytes.take 8).drop 4)
      ∧ ∀ bytes, ¬ NamesOperation bytes → decode? bytes = none := by
  refine ⟨encode_eq_packed, fun bytes => decode?_eq_unpacked, decode?_encode, ?_, ?_, ?_⟩
  · intro i hvalid
    rw [decode?_encode, maskRegisters_of_valid hvalid]
  · intro bytes hnames
    obtain ⟨i, hi⟩ := exists_decode?_iff.2 hnames
    obtain ⟨hpacked, himm, -⟩ := words_of_decode? hi
    refine ⟨i, hi, ?_⟩
    rw [encode_eq_packed, hpacked, himm, littleEndian_wordAt 4 hnames.1, List.drop_take]
  · intro bytes hnames
    rw [Option.eq_none_iff_forall_ne_some]
    intro i hi
    exact hnames (exists_decode?_iff.1 ⟨i, hi⟩)

/-- A comparison of two registers with one of its spare bits set and a byte behind it is read, and
is the same without them; the number 63 is no operation. -/
theorem encoding_laws_compare :
    (∃ i, decode? [0x24, 0x10, 0x61, 0x1C, 0, 0, 0, 0, 7] = some i
        ∧ i.encode = [0x20, 0x10, 0x61, 0x1C, 0, 0, 0, 0] ∧ decode? i.encode = some i)
      ∧ decode? [0, 0, 0, 0xFC, 0, 0, 0, 0] = none := by
  obtain ⟨-, -, -, hvalid, hnames, hnone⟩ := encoding_laws
  refine ⟨?_, hnone _ (by decide)⟩
  obtain ⟨i, hi, hencode⟩ := hnames [0x24, 0x10, 0x61, 0x1C, 0, 0, 0, 0, 7] (by decide)
  exact ⟨i, hi, hencode.trans (by decide), hvalid i (words_of_decode? hi).2.2⟩

end ModuleHost.Instruction
