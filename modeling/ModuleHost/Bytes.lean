/-!
# Bytes

Numbers and text as they stand in a file: a number is a fixed count of bytes, least significant
first, and text is its UTF-8 encoding.  Both directions are given, and each undoes the other:
`ofLittleEndian_littleEndian` and `littleEndian_ofLittleEndian` for numbers, `toText?_ofText` and
`ofText_of_toText?` for text.
-/

namespace ModuleHost.Bytes

/-! ### Numbers -/

/-- The `width` low bytes of `n`, least significant first. -/
def littleEndian : (width : Nat) → (n : Nat) → List UInt8
  | 0, _ => []
  | width + 1, n => UInt8.ofNat n :: littleEndian width (n / 256)

def capacity : (width : Nat) → Nat
  | 0 => 1
  | width + 1 => 256 * capacity width

/-- The number whose bytes, least significant first, are the given ones. -/
def ofLittleEndian : List UInt8 → Nat
  | [] => 0
  | b :: bs => b.toNat + 256 * ofLittleEndian bs

@[simp] theorem length_littleEndian (width n : Nat) : (littleEndian width n).length = width := by
  induction width generalizing n with
  | zero => rfl
  | succ width ih => simp [littleEndian, ih]

theorem ofLittleEndian_littleEndian (width n : Nat) :
    ofLittleEndian (littleEndian width n) = n % capacity width := by
  induction width generalizing n with
  | zero => simp [littleEndian, ofLittleEndian, capacity, Nat.mod_one]
  | succ width ih =>
    have hb : (UInt8.ofNat n).toNat = n % 256 := by simp
    rw [littleEndian, ofLittleEndian, ih, hb, capacity, Nat.mod_mul]

theorem ofLittleEndian_lt (bs : List UInt8) : ofLittleEndian bs < capacity bs.length := by
  induction bs with
  | nil => simp [ofLittleEndian, capacity]
  | cons b bs ih =>
    have hb := b.toNat_lt
    simp only [ofLittleEndian, List.length_cons, capacity]
    omega

theorem littleEndian_ofLittleEndian (bs : List UInt8) :
    littleEndian bs.length (ofLittleEndian bs) = bs := by
  induction bs with
  | nil => rfl
  | cons b bs ih =>
    have hb := b.toNat_lt
    have hd : (b.toNat + 256 * ofLittleEndian bs) / 256 = ofLittleEndian bs := by omega
    have hm : UInt8.ofNat (b.toNat + 256 * ofLittleEndian bs) = b := by
      apply UInt8.toNat_inj.1
      simp only [UInt8.toNat_ofNat']
      omega
    simp only [List.length_cons, ofLittleEndian, littleEndian, hd, hm, ih]

/-! ### Text -/

/-- The UTF-8 encoding of `s`. -/
def ofText (s : String) : List UInt8 := s.toByteArray.data.toList

/-- The text whose UTF-8 encoding is `bs`, if there is one. -/
def toText? (bs : List UInt8) : Option String := String.fromUTF8? ⟨bs.toArray⟩

theorem length_ofText (s : String) : (ofText s).length = s.utf8ByteSize := by
  rw [ofText, Array.length_toList]
  rfl

theorem toText?_ofText (s : String) : toText? (ofText s) = some s := by
  have h : (⟨(ofText s).toArray⟩ : ByteArray) = s.toByteArray := by simp [ofText]
  rw [toText?, h, String.fromUTF8?, dif_pos s.isValidUTF8]
  rfl

theorem ofText_of_toText? {bs : List UInt8} {s : String} (h : toText? bs = some s) :
    ofText s = bs := by
  unfold toText? String.fromUTF8? at h
  split at h
  · cases h
    rfl
  · cases h

end ModuleHost.Bytes
