import ModuleHost.Instruction.Encoding

/-!
# Encoded instructions are read back

The fields of an instruction do not overlap in its first word, so decoding gives back every field;
of a register it gives back what encoding has kept, the number modulo 32.  The other way round, the
eight bytes that are decoded to an instruction are its encoding, but for the three spare bits
(`encode_of_decode?`).
-/

namespace ModuleHost.Instruction

theorem fieldWord_lt (i : Instruction) : i.fieldWord < 0x100000000 := by
  have hop := i.opcode.code_lt
  have hmode := i.mode.toNat_lt
  have hdest := Nat.mod_lt i.dest.toNat (show 32 > 0 by decide)
  have hsrc1 := Nat.mod_lt i.src1.toNat (show 32 > 0 by decide)
  have hsrc2 := Nat.mod_lt i.src2.toNat (show 32 > 0 by decide)
  unfold fieldWord
  omega

theorem ofNat_mod_32 (r : UInt8) : UInt8.ofNat (r.toNat % 32) = r % 32 := by
  apply UInt8.toNat_inj.1
  have h := Nat.mod_lt r.toNat (show 32 > 0 by decide)
  rw [UInt8.toNat_mod, UInt8.toNat_ofNat', Nat.mod_eq_of_lt]
  · rfl
  · omega

theorem ofWords?_fieldWord (i : Instruction) :
    ofWords? i.fieldWord i.imm.toUInt32.toNat = some i.maskRegisters := by
  have hop := i.opcode.code_lt
  have hmode := i.mode.toNat_lt
  have hdest := Nat.mod_lt i.dest.toNat (show 32 > 0 by decide)
  have hsrc1 := Nat.mod_lt i.src1.toNat (show 32 > 0 by decide)
  have hsrc2 := Nat.mod_lt i.src2.toNat (show 32 > 0 by decide)
  have h₁ : i.fieldWord / 0x4000000 % 64 = i.opcode.code := by unfold fieldWord; omega
  have h₂ : i.fieldWord / 0x200000 % 32 = i.dest.toNat % 32 := by unfold fieldWord; omega
  have h₃ : i.fieldWord / 0x10000 % 32 = i.src1.toNat % 32 := by unfold fieldWord; omega
  have h₄ : i.fieldWord / 0x800 % 32 = i.src2.toNat % 32 := by unfold fieldWord; omega
  have h₅ : i.fieldWord / 8 % 256 = i.mode.toNat := by unfold fieldWord; omega
  rw [ofWords?, h₁, h₂, h₃, h₄, h₅, Opcode.ofCode?_code, Option.map_some, ofNat_mod_32,
    ofNat_mod_32, ofNat_mod_32, UInt8.ofNat_toNat, UInt32.ofNat_toNat, Int32.toInt32_toUInt32]
  rfl

theorem decode?_encode (i : Instruction) : decode? i.encode = some i.maskRegisters := by
  have himm := i.imm.toUInt32.toNat_lt
  have hfields := i.fieldWord_lt
  have hcapacity : Bytes.capacity 4 = 0x100000000 := rfl
  have htake : i.encode.take 4 = Bytes.littleEndian 4 i.fieldWord := by
    rw [encode, List.take_left' (Bytes.length_littleEndian 4 _)]
  have hdrop : (i.encode.drop 4).take 4 = Bytes.littleEndian 4 i.imm.toUInt32.toNat := by
    rw [encode, List.drop_left' (Bytes.length_littleEndian 4 _),
      List.take_of_length_le (Nat.le_of_eq (Bytes.length_littleEndian 4 _))]
  rw [decode?, if_neg (by rw [length_encode]; decide), htake, hdrop,
    Bytes.ofLittleEndian_littleEndian, Bytes.ofLittleEndian_littleEndian, hcapacity,
    Nat.mod_eq_of_lt hfields, Nat.mod_eq_of_lt (by omega), ofWords?_fieldWord]

theorem maskRegisters_of_valid {i : Instruction} (h : i.RegistersValid) : i.maskRegisters = i := by
  have hmod : ∀ r : UInt8, r < 32 → r % 32 = r := by
    intro r hr
    apply UInt8.toNat_inj.1
    rw [UInt8.toNat_mod]
    exact Nat.mod_eq_of_lt (UInt8.lt_iff_toNat_lt.1 hr)
  obtain ⟨hd, hs₁, hs₂⟩ := h
  rw [maskRegisters, hmod _ hd, hmod _ hs₁, hmod _ hs₂]

/-! ### Spare bits -/

/-- The bits of an encoded instruction that hold a field: the three low ones of the first byte are
spare. -/
def keptBits : List UInt8 := 0xF8 :: List.replicate 7 0xFF

theorem ofWords?_mul_eight (fields imm : Nat) :
    ofWords? (fields / 8 * 8) imm = ofWords? fields imm := by
  have hop : fields / 8 * 8 / 0x4000000 = fields / 0x4000000 := by omega
  have hdest : fields / 8 * 8 / 0x200000 = fields / 0x200000 := by omega
  have hsrc1 : fields / 8 * 8 / 0x10000 = fields / 0x10000 := by omega
  have hsrc2 : fields / 8 * 8 / 0x800 = fields / 0x800 := by omega
  have hmode : fields / 8 * 8 / 8 = fields / 8 := by omega
  rw [ofWords?, ofWords?, hop, hdest, hsrc1, hsrc2, hmode]

theorem toNat_ofNat_mod_32 (n : Nat) : (UInt8.ofNat (n % 32)).toNat = n % 32 := by
  have h := Nat.mod_lt n (show 32 > 0 by decide)
  rw [UInt8.toNat_ofNat', Nat.mod_eq_of_lt]
  omega

/-- All bits of the words but the spare ones are in the instruction. -/
theorem words_of_ofWords? {fields imm : Nat} {i : Instruction} (hfields : fields < 0x100000000)
    (himm : imm < 0x100000000) (h : ofWords? fields imm = some i) :
    i.fieldWord = fields / 8 * 8 ∧ i.imm.toUInt32.toNat = imm ∧ i.RegistersValid := by
  obtain ⟨op, hop, rfl⟩ := Option.map_eq_some_iff.1 h
  have hcode := Opcode.code_of_ofCode? hop
  have hlt : ∀ n : Nat, UInt8.ofNat (n % 32) < 32 := by
    intro n
    rw [UInt8.lt_iff_toNat_lt, toNat_ofNat_mod_32]
    exact Nat.mod_lt n (by decide)
  have hmode : (UInt8.ofNat (fields / 8 % 256)).toNat = fields / 8 % 256 := by
    rw [UInt8.toNat_ofNat', Nat.mod_mod]
  refine ⟨?_, ?_, hlt _, hlt _, hlt _⟩
  · rw [fieldWord, hcode, toNat_ofNat_mod_32, toNat_ofNat_mod_32, toNat_ofNat_mod_32, hmode]
    omega
  · rw [UInt32.toUInt32_toInt32, UInt32.toNat_ofNat_of_lt' himm]

theorem ofLittleEndian_clearSpare (b : UInt8) (bs : List UInt8) :
    Bytes.ofLittleEndian ((b &&& 0xF8) :: bs) = Bytes.ofLittleEndian (b :: bs) / 8 * 8 := by
  have hbyte : ∀ n < 256, n &&& 0xF8 = n / 8 * 8 := by decide +kernel
  have hb : (b &&& 0xF8).toNat = b.toNat / 8 * 8 := by
    rw [UInt8.toNat_and]
    exact hbyte b.toNat b.toNat_lt
  rw [Bytes.ofLittleEndian, Bytes.ofLittleEndian, hb]
  omega

theorem decode?_clearSpare {b : UInt8} {bs : List UInt8} :
    decode? ((b &&& 0xF8) :: bs) = decode? (b :: bs) := by
  rw [decode?, decode?, List.take_succ_cons, List.take_succ_cons, ofLittleEndian_clearSpare,
    ofWords?_mul_eight]
  rfl

/-- Encoding undoes decoding, but for the spare bits. -/
theorem encode_of_decode? {b : UInt8} {bs : List UInt8} {i : Instruction}
    (hl : bs.length = 7) (h : decode? (b :: bs) = some i) :
    i.encode = (b &&& 0xF8) :: bs ∧ i.RegistersValid := by
  have hfour : (b :: bs.take 3).length = 4 := by
    rw [List.length_cons, List.length_take]
    omega
  have himm : (bs.drop 3).length = 4 := by
    rw [List.length_drop]
    omega
  have hwords : ofWords? (Bytes.ofLittleEndian (b :: bs.take 3))
      (Bytes.ofLittleEndian (bs.drop 3)) = some i := by
    rw [decode?, if_neg (by rw [List.length_cons, hl]; decide)] at h
    rwa [List.take_succ_cons, List.drop_succ_cons, List.take_of_length_le (Nat.le_of_eq himm)] at h
  have hlt : ∀ cs : List UInt8, cs.length = 4 → Bytes.ofLittleEndian cs < 0x100000000 := by
    intro cs hcs
    have hcapacity := Bytes.ofLittleEndian_lt cs
    rwa [hcs] at hcapacity
  obtain ⟨hfields, hnumber, hvalid⟩ := words_of_ofWords? (hlt _ hfour) (hlt _ himm) hwords
  refine ⟨?_, hvalid⟩
  have hfirst := Bytes.littleEndian_ofLittleEndian ((b &&& 0xF8) :: bs.take 3)
  have hsecond := Bytes.littleEndian_ofLittleEndian (bs.drop 3)
  rw [List.length_cons, ← List.length_cons (a := b), hfour, ofLittleEndian_clearSpare] at hfirst
  rw [himm] at hsecond
  rw [encode, hfields, hnumber, hfirst, hsecond, List.cons_append, List.take_append_drop]

end ModuleHost.Instruction
