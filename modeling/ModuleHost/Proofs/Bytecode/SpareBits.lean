import ModuleHost.Proofs.Bytecode.NormalForm
import ModuleHost.Proofs.Bytecode.Truncation

/-!
# The spare bits of a stream

An accepted stream holds its units and three spare bits in every instruction, and nothing else.  The
readers are followed field by field: what is taken is what the value is written as, all bits of it
but for the spare ones of the instructions (`Yields`), and whatever agrees with the written stream
in all other bits is read as the same units (`Reads`).  So writing the units again clears the spare
bits of the stream and changes nothing else (`write?_of_accepts`).
-/

namespace ModuleHost

/-- The bits of a written unit that hold something: all but the spare ones of its instructions. -/
def CodeUnit.keptBits (u : CodeUnit) : List UInt8 :=
  List.replicate u.front.length 0xFF
    ++ (u.instructions.flatMap (fun _ => Instruction.keptBits) ++ List.replicate u.back.length 0xFF)

namespace Bytecode

/-- The same of a stream, which begins with ten bytes that come before the units. -/
def keptBits (us : List CodeUnit) : List UInt8 :=
  List.replicate 10 0xFF ++ us.flatMap CodeUnit.keptBits

/-- The bits of the mask are left of `bs`, which is as long. -/
structure Cleared (mask bs cs : List UInt8) : Prop where
  length : bs.length = mask.length
  bits : bs.zipWith (· &&& ·) mask = cs

/-! ### Masks -/

section

variable {m₁ m₂ bs cs₁ cs₂ : List UInt8} {α : Type} {mask encode : α → List UInt8}

theorem and_255 (b : UInt8) : b &&& 0xFF = b := by
  apply UInt8.toNat_inj.1
  rw [UInt8.toNat_and]
  exact (Nat.and_two_pow_sub_one_eq_mod b.toNat 8).trans (Nat.mod_eq_of_lt b.toNat_lt)

theorem zipWith_and_ones (bs : List UInt8) :
    bs.zipWith (· &&& ·) (List.replicate bs.length 0xFF) = bs := by
  induction bs with
  | nil => rfl
  | cons b bs ih =>
    rw [List.length_cons, List.replicate_succ, List.zipWith_cons_cons, ih, and_255]

theorem cleared_ones {cs : List UInt8} : Cleared (List.replicate cs.length 0xFF) bs cs ↔ bs = cs := by
  constructor
  · rintro ⟨hlength, hbits⟩
    rw [List.length_replicate] at hlength
    rw [← hlength, zipWith_and_ones] at hbits
    exact hbits
  · rintro rfl
    exact ⟨(List.length_replicate ..).symm, zipWith_and_ones bs⟩

theorem cleared_append (h : cs₁.length = m₁.length) : Cleared (m₁ ++ m₂) bs (cs₁ ++ cs₂)
    ↔ ∃ bs₁ bs₂, bs = bs₁ ++ bs₂ ∧ Cleared m₁ bs₁ cs₁ ∧ Cleared m₂ bs₂ cs₂ := by
  constructor
  · rintro ⟨hlength, hbits⟩
    rw [List.length_append] at hlength
    have hfirst : (bs.take m₁.length).length = m₁.length := by
      rw [List.length_take]
      omega
    have hsecond : (bs.drop m₁.length).length = m₂.length := by
      rw [List.length_drop]
      omega
    rw [← List.take_append_drop m₁.length bs, List.zipWith_append hfirst] at hbits
    obtain ⟨hleft, hright⟩ := List.append_inj hbits (by
      rw [List.length_zipWith, hfirst, Nat.min_self, h])
    exact ⟨_, _, (List.take_append_drop m₁.length bs).symm, ⟨hfirst, hleft⟩, ⟨hsecond, hright⟩⟩
  · rintro ⟨bs₁, bs₂, rfl, hleft, hright⟩
    refine ⟨?_, ?_⟩
    · rw [List.length_append, List.length_append, hleft.length, hright.length]
    · rw [List.zipWith_append hleft.length, hleft.bits, hright.bits]

theorem cleared_flatMap {xs : List α} (h : ∀ x ∈ xs, (encode x).length = (mask x).length) :
    Cleared (xs.flatMap mask) bs (xs.flatMap encode)
      ↔ Pieces (fun piece x => Cleared (mask x) piece (encode x)) bs xs := by
  induction xs generalizing bs with
  | nil =>
    constructor
    · rintro ⟨hlength, -⟩
      rw [List.eq_nil_of_length_eq_zero hlength]
      exact .nil
    · intro hpieces
      cases hpieces
      exact ⟨rfl, rfl⟩
  | cons x xs ih =>
    rw [List.flatMap_cons, List.flatMap_cons, cleared_append (h x List.mem_cons_self)]
    have hrest : ∀ {cs}, Cleared (xs.flatMap mask) cs (xs.flatMap encode)
        ↔ Pieces (fun piece x => Cleared (mask x) piece (encode x)) cs xs :=
      ih fun y hy => h y (List.mem_cons_of_mem x hy)
    constructor
    · rintro ⟨piece, cs, rfl, hpiece, hcs⟩
      exact .cons hpiece (hrest.1 hcs)
    · rintro (_ | ⟨hpiece, hcs⟩)
      exact ⟨_, _, rfl, hpiece, hrest.2 hcs⟩

/-- What has been cleared stays as it is. -/
theorem Cleared.again {mask cs : List UInt8} (h : Cleared mask bs cs) : Cleared mask cs cs := by
  obtain ⟨hlength, rfl⟩ := h
  refine ⟨?_, ?_⟩
  · rw [List.length_zipWith, hlength, Nat.min_self]
  · apply List.ext_getElem
    · rw [List.length_zipWith, List.length_zipWith]
      omega
    · intro n h₁ h₂
      rw [List.getElem_zipWith, List.getElem_zipWith, UInt8.and_assoc, UInt8.and_self]

end

/-! ### What is written -/

/-- Eight bytes are decoded to an instruction if and only if they are its encoding but for the spare
bits. -/
theorem cleared_encode {word : List UInt8} {i : Instruction} :
    i.RegistersValid ∧ Cleared Instruction.keptBits word i.encode
      ↔ word.length = Instruction.encodedSize ∧ Instruction.decode? word = some i := by
  have hword : ∀ b bs, bs.length = 7 →
      Cleared Instruction.keptBits (b :: bs) ((b &&& 0xF8) :: bs) := by
    intro b bs hbs
    have hkept : Instruction.keptBits = [0xF8] ++ List.replicate bs.length 0xFF := by
      rw [hbs]
      rfl
    have hone : [b &&& 0xF8].length = [(0xF8 : UInt8)].length := rfl
    rw [hkept]
    exact (cleared_append hone).2 ⟨[b], bs, rfl, ⟨rfl, rfl⟩, cleared_ones.2 rfl⟩
  constructor
  · rintro ⟨hvalid, hcleared⟩
    refine ⟨hcleared.length, ?_⟩
    match word, hcleared with
    | b :: bs, hcleared =>
      have hbs : bs.length = 7 := Nat.succ_inj.1 hcleared.length
      rw [← Instruction.decode?_clearSpare, ← (hword b bs hbs).bits, hcleared.bits,
        Instruction.decode?_encode, Instruction.maskRegisters_of_valid hvalid]
  · rintro ⟨hlength, hdecode⟩
    match word, hlength with
    | b :: bs, hlength =>
      have hbs : bs.length = 7 := Nat.succ_inj.1 hlength
      obtain ⟨hencode, hvalid⟩ := Instruction.encode_of_decode? hbs hdecode
      rw [hencode]
      exact ⟨hvalid, hword b bs hbs⟩

theorem length_words (u : CodeUnit) : (u.instructions.flatMap Instruction.encode).length
    = (u.instructions.flatMap fun _ => Instruction.keptBits).length := by
  rw [List.length_flatMap, List.length_flatMap]
  exact congrArg List.sum (List.map_congr_left fun i _ => i.length_encode)

theorem cleared_ofUnit {u : CodeUnit} {bs : List UInt8} :
    Cleared u.keptBits bs ((Field.ofUnit u).flatMap Field.bytes)
      ↔ ∃ words, bs = u.front ++ (words ++ u.back)
        ∧ Pieces (fun word i => Cleared Instruction.keptBits word i.encode) words
            u.instructions := by
  have hwords : ∀ {words}, Cleared (u.instructions.flatMap fun _ => Instruction.keptBits) words
      (u.instructions.flatMap Instruction.encode)
        ↔ Pieces (fun word i => Cleared Instruction.keptBits word i.encode) words u.instructions :=
    cleared_flatMap fun i _ => i.length_encode
  rw [Field.bytes_ofUnit, CodeUnit.keptBits, cleared_append (List.length_replicate ..).symm]
  constructor
  · rintro ⟨front, rest, rfl, hfront, hrest⟩
    obtain ⟨words, back, rfl, hcleared, hback⟩ := (cleared_append (length_words u)).1 hrest
    rw [cleared_ones.1 hfront, cleared_ones.1 hback]
    exact ⟨words, rfl, hwords.1 hcleared⟩
  · rintro ⟨words, rfl, hpieces⟩
    exact ⟨_, _, rfl, cleared_ones.2 rfl,
      (cleared_append (length_words u)).2 ⟨_, _, rfl, hwords.2 hpieces, cleared_ones.2 rfl⟩⟩

theorem length_keptBits (u : CodeUnit) :
    ((Field.ofUnit u).flatMap Field.bytes).length = u.keptBits.length := by
  rw [Field.bytes_ofUnit, CodeUnit.keptBits, List.length_append, List.length_append,
    List.length_append, List.length_append, List.length_replicate, List.length_replicate,
    length_words]

theorem cleared_ofUnits {us : List CodeUnit} {bs : List UInt8} :
    Cleared (keptBits us) bs ((Field.ofUnits us).flatMap Field.bytes)
      ↔ ∃ units, bs = magic ++ (Bytes.littleEndian 2 version
          ++ (Bytes.littleEndian 4 us.length ++ units))
        ∧ Pieces (fun piece u => Cleared u.keptBits piece ((Field.ofUnit u).flatMap Field.bytes))
            units us := by
  have hlayout : (Field.ofUnits us).flatMap Field.bytes
      = (magic ++ (Bytes.littleEndian 2 version ++ Bytes.littleEndian 4 us.length))
        ++ us.flatMap fun u => (Field.ofUnit u).flatMap Field.bytes := by
    rw [Field.bytes_ofUnits, List.append_assoc, List.append_assoc]
  have hhead : (magic ++ (Bytes.littleEndian 2 version ++ Bytes.littleEndian 4 us.length)).length
      = 10 := rfl
  have hunits : ∀ {units}, Cleared (us.flatMap CodeUnit.keptBits) units
      (us.flatMap fun u => (Field.ofUnit u).flatMap Field.bytes)
        ↔ Pieces (fun piece u => Cleared u.keptBits piece ((Field.ofUnit u).flatMap Field.bytes))
            units us := cleared_flatMap fun u _ => length_keptBits u
  rw [hlayout, keptBits, cleared_append (by rw [hhead, List.length_replicate]), ← hhead]
  constructor
  · rintro ⟨head, units, rfl, hcleared, hpieces⟩
    rw [cleared_ones.1 hcleared, List.append_assoc, List.append_assoc]
    exact ⟨units, rfl, hunits.1 hpieces⟩
  · rintro ⟨units, rfl, hpieces⟩
    refine ⟨_, units, ?_, cleared_ones.2 rfl, hunits.2 hpieces⟩
    rw [List.append_assoc, List.append_assoc]

/-! ### What is taken -/

namespace Pieces

variable {α : Type} {P : List UInt8 → α → Prop} {bs : List UInt8} {xs : List α}

theorem imp {Q : List UInt8 → α → Prop} (h : Pieces P bs xs)
    (hpq : ∀ piece x, x ∈ xs → P piece x → Q piece x) : Pieces Q bs xs := by
  induction h with
  | nil => exact .nil
  | @cons piece bs x xs head tail ih =>
    exact .cons (hpq piece x List.mem_cons_self head)
      (ih fun piece y hy => hpq piece y (List.mem_cons_of_mem x hy))

theorem forall_mem {Q : α → Prop} (h : Pieces P bs xs) (hpq : ∀ piece x, P piece x → Q x) :
    ∀ x ∈ xs, Q x := by
  induction h with
  | nil => nofun
  | @cons piece bs x xs head tail ih => exact List.forall_mem_cons.2 ⟨hpq piece x head, ih⟩

theorem eq_flatMap {encode : α → List UInt8} (h : Pieces P bs xs)
    (hp : ∀ piece x, P piece x → piece = encode x) : bs = xs.flatMap encode := by
  induction h with
  | nil => rfl
  | @cons piece bs x xs head tail ih => rw [List.flatMap_cons, ← hp piece x head, ← ih]

end Pieces

namespace Yields

variable {α : Type} {item : Nat → Reader α} {P : List UInt8 → α → Prop}

theorem number (width : Nat) : Yields (Reader.number width) fun bs n =>
    bs = Bytes.littleEndian width n ∧ n < Bytes.capacity width := by
  refine (bytes width).bind fun bs taken htaken => .pure ?_
  obtain ⟨rfl, rfl⟩ := htaken
  rw [List.append_nil]
  exact ⟨(Bytes.littleEndian_ofLittleEndian taken).symm, Bytes.ofLittleEndian_lt taken⟩

theorem length : Yields Reader.length fun bs n =>
    bs = Bytes.littleEndian 4 n ∧ n ≤ maxLength := by
  refine (number 4).bind fun bs n hn => check fun hle => .pure ?_
  rw [List.append_nil]
  exact ⟨hn.1, Nat.not_lt.1 hle⟩

theorem text : Yields Reader.text fun bs s =>
    bs = (Field.ofText s).flatMap Field.bytes ∧ (Bytes.ofText s).length ≤ maxLength := by
  refine length.bind fun size n hn => (bytes n).bind fun bs taken htaken => ?_
  obtain ⟨rfl, rfl⟩ := htaken
  cases htext : Bytes.toText? taken with
  | none => exact throw _
  | some s =>
    refine .pure ?_
    have hbytes := Bytes.ofText_of_toText? htext
    rw [hbytes]
    exact ⟨by rw [hn.1, ← hbytes]; rfl, hn.2⟩

theorem repeated (h : ∀ position, Yields (item position) P) (start count : Nat) :
    Yields (Reader.repeated item start count) fun bs xs => xs.length = count ∧ Pieces P bs xs := by
  induction count generalizing start with
  | zero => exact .pure ⟨rfl, .nil⟩
  | succ count ih =>
    refine (h start).bind fun piece x hx => (ih (start + 1)).bind fun bs xs hxs => .pure ?_
    rw [List.append_nil]
    exact ⟨congrArg Nat.succ hxs.1, .cons hx hxs.2⟩

theorem table (h : ∀ position, Yields (item position) P) :
    Yields (Reader.table item) fun bs xs => xs.length ≤ maxLength
      ∧ ∃ rest, bs = Bytes.littleEndian 4 xs.length ++ rest ∧ Pieces P rest xs := by
  refine length.bind fun size n hn => (repeated h 0 n).imp fun bs xs hxs => ?_
  obtain ⟨rfl, hpieces⟩ := hxs
  exact ⟨hn.2, bs, by rw [hn.1], hpieces⟩

theorem instruction (unit position : Nat) : Yields (Reader.instruction unit position)
    fun word i => i.RegistersValid ∧ Cleared Instruction.keptBits word i.encode := by
  refine (bytes Instruction.encodedSize).bind fun word taken htaken => ?_
  obtain ⟨hlength, rfl⟩ := htaken
  cases hdecode : Instruction.decode? taken with
  | none => exact throw _
  | some i =>
    refine .pure ?_
    rw [List.append_nil]
    exact cleared_encode.2 ⟨hlength, hdecode⟩

theorem child (total unit : Nat) : Yields (Reader.child total unit) fun bs offset =>
    bs = Bytes.littleEndian 4 offset.toNat := by
  refine (number 4).bind fun bs n hn => check fun _ => .pure ?_
  rw [List.append_nil, hn.1, UInt32.toNat_ofNat_of_lt' hn.2]

theorem lines (start count : Nat) :
    Yields (Reader.repeated (fun _ => Reader.number 4) start count) fun bs ns => ns.length = count
      ∧ bs = (ns.map UInt32.ofNat).flatMap fun n => Bytes.littleEndian 4 n.toNat := by
  refine (repeated (fun _ => number 4) start count).imp fun bs ns hns => ⟨hns.1, ?_⟩
  rw [List.flatMap_map]
  refine hns.2.eq_flatMap fun piece n hn => ?_
  rw [UInt32.toNat_ofNat_of_lt' hn.2, hn.1]

theorem unit (total position : Nat) : Yields (Reader.unit total position) fun bs u =>
    u.IsNormal ∧ (Field.ofUnit u).all Field.fits = true
      ∧ Cleared u.keptBits bs ((Field.ofUnit u).flatMap Field.bytes) := by
  refine text.bind fun name filename hname => ?_
  refine (table (instruction position)).bind fun code instructions hcode => ?_
  refine (lines 0 _).bind fun numbers ns hns => ?_
  refine (table fun _ => text).bind fun texts symbols hsymbols => ?_
  refine (table fun _ => child total position).bind fun offsets children hchildren => .pure ?_
  obtain ⟨hcount, words, rfl, hwords⟩ := hcode
  obtain ⟨hsymbolCount, symbolBytes, rfl, hsymbols⟩ := hsymbols
  obtain ⟨hchildCount, childBytes, rfl, hchildren⟩ := hchildren
  have hfilename : (if filename.isEmpty then none else some filename).getD "" = filename := by
    by_cases h : filename = ""
    · rw [h]
      rfl
    · have hne : filename.isEmpty = false := by simpa using h
      rw [hne]
      rfl
  have hlines : (ns.map UInt32.ofNat).length = instructions.length := by
    rw [List.length_map, hns.1]
  refine ⟨⟨?_, hwords.forall_mem fun word i hi => hi.1, hlines⟩, ?_, ?_⟩
  · intro h
    have hempty : "" = filename := (congrArg (·.getD "") h).symm.trans hfilename
    rw [← hempty] at h
    cases h
  · rw [Field.ofUnit_fits]
    refine ⟨?_, hcount, hsymbolCount, ?_, hchildCount⟩
    · rw [hfilename]
      exact hname.2
    · exact hsymbols.forall_mem fun piece s hs => hs.2
  · refine cleared_ofUnit.2 ⟨words, ?_, hwords.imp fun word i _ hi => hi.2⟩
    have hsymbolBytes := hsymbols.eq_flatMap fun piece s hs => hs.1
    have hchildBytes := hchildren.eq_flatMap fun piece offset ho => ho
    rw [CodeUnit.front_append_back, CodeUnit.instructionLines_of_length, hfilename, hname.1, hns.2,
      hsymbolBytes, hchildBytes]
    exact hlines

theorem units : Yields Reader.units fun bs us =>
    (∀ u ∈ us, u.IsNormal) ∧ (Field.ofUnits us).all Field.fits = true
      ∧ Cleared (keptBits us) bs ((Field.ofUnits us).flatMap Field.bytes) := by
  refine (bytes magic.length).bind fun letters found hfound => check fun hmagic => ?_
  refine (number 2).bind fun second found' hversion => check fun hfound' => ?_
  refine length.bind fun third total htotal => check fun _ => ?_
  refine (repeated (unit total) 0 total).imp fun bs us hus => ?_
  obtain ⟨-, rfl⟩ := hfound
  obtain ⟨rfl, hpieces⟩ := hus
  refine ⟨hpieces.forall_mem fun piece u hu => hu.1, Field.ofUnits_fits us |>.2 ⟨htotal.2,
    hpieces.forall_mem fun piece u hu => hu.2.1⟩, cleared_ofUnits.2 ⟨bs, ?_,
    hpieces.imp fun piece u _ hu => hu.2.2⟩⟩
  rw [not_not.1 hmagic, hversion.1, not_not.1 hfound', htotal.1]

end Yields

/-- What agrees with a written stream outside the spare bits is read as what was written. -/
theorem Reads.units_of_cleared {us : List CodeUnit} {bs : List UInt8}
    (hnormal : ∀ u ∈ us, u.IsNormal) (hfits : (Field.ofUnits us).all Field.fits = true)
    (hne : us ≠ [])
    (hc : ∀ (i : Nat) (u : CodeUnit), us[i]? = some u → u.ChildrenWithin us.length i)
    (h : Cleared (keptBits us) bs ((Field.ofUnits us).flatMap Field.bytes)) :
    Reads Reader.units bs us := by
  obtain ⟨hcount, hunits⟩ := (Field.ofUnits_fits us).1 hfits
  obtain ⟨units, rfl, hpieces⟩ := cleared_ofUnits.1 h
  refine units_of_pieces hcount hne hc (hpieces.imp fun piece u hu hpiece i hwithin => ?_)
  obtain ⟨words, rfl, hwords⟩ := cleared_ofUnit.1 hpiece
  have hvalid := (hnormal u hu).registers
  have hread := unit_of_words (i := i) (hwords.imp fun word x hx hword position => ?_) rfl
    (hunits u hu) hwithin
  · rwa [(hnormal u hu).normal] at hread
  · obtain ⟨hlength, hdecode⟩ := cleared_encode.1 ⟨hvalid x hx, hword⟩
    exact instruction_of_decode? hlength hdecode

end Bytecode

open Bytecode

/-- The units of a stream that is accepted are in normal form. -/
theorem Bytecode.isNormal_of_read {stream : List UInt8} {us : List CodeUnit}
    (h : read stream = .ok us) : ∀ u ∈ us, u.IsNormal := by
  obtain ⟨n, haccepts⟩ := read_eq_ok_iff.1 h
  exact (haccepts.yields Yields.units).1

/-- The bytes that an accepted stream is read from are those that its units are written as, but for
the spare bits of the instructions, which writing clears.  So what is written is accepted again, and
two streams hold the same units if and only if the bytes that they are read from are equally many
and agree in all other bits. -/
theorem write?_of_accepts {stream : List UInt8} {n : Nat} {us : List CodeUnit}
    (h : Accepts stream n us) :
    ∃ written, write? us = some written
      ∧ Cleared (keptBits us) (stream.take n) written
      ∧ (∀ rest, Accepts (written ++ rest) n us)
      ∧ ∀ stream' n' us', Accepts stream' n' us' →
          (us = us' ↔ n = n' ∧ (stream.take n).zipWith (· &&& ·) (keptBits us)
            = (stream'.take n').zipWith (· &&& ·) (keptBits us)) := by
  obtain ⟨hnormal, hfits, hcleared⟩ := h.yields Yields.units
  obtain ⟨hne, hc⟩ := read_accepted (read_eq_ok_iff.2 ⟨n, h⟩)
  have hreads : ∀ {bs}, Cleared (keptBits us) bs ((Field.ofUnits us).flatMap Field.bytes) →
      Reads Reader.units bs us := Reads.units_of_cleared hnormal hfits hne hc
  have hlength : n = (keptBits us).length := by
    rw [← hcleared.length, List.length_take, Nat.min_eq_left h.le]
  refine ⟨_, if_pos hfits, hcleared, fun rest => ?_, fun stream' n' us' h' => ⟨?_, ?_⟩⟩
  · have haccepts := Accepts.of_reads (hreads hcleared.again) rest
    rwa [hcleared.again.length, ← hlength] at haccepts
  · rintro rfl
    obtain ⟨-, -, hcleared'⟩ := h'.yields Yields.units
    refine ⟨?_, hcleared.bits.trans hcleared'.bits.symm⟩
    rw [hlength, ← hcleared'.length, List.length_take, Nat.min_eq_left h'.le]
  · rintro ⟨rfl, hbits⟩
    have hagree : Cleared (keptBits us) (stream'.take n) ((Field.ofUnits us).flatMap Field.bytes) := by
      refine ⟨?_, hbits.symm.trans hcleared.bits⟩
      rw [List.length_take, Nat.min_eq_left h'.le, hlength]
    have hsame := (hreads hagree (stream'.drop n)).symm
    rw [List.take_append_drop, h'.run] at hsame
    cases hsame
    rfl

/-- A unit of one instruction in whose first byte all spare bits are set. -/
theorem write?_of_accepts_halt :
    ∃ stream written : List UInt8, stream[18]? = some 7 ∧ written[18]? = some 0
      ∧ Accepts stream 38 [{ instructions := [{ opcode := .halt }], lines := [3] }]
      ∧ write? [{ instructions := [{ opcode := .halt }], lines := [3] }] = some written
      ∧ Accepts (written ++ [9]) 38 [{ instructions := [{ opcode := .halt }], lines := [3] }] := by
  have hnormal : ∀ u ∈ [({ instructions := [{ opcode := .halt }], lines := [3] } : CodeUnit)],
      u.IsNormal := by
    intro u hu
    rw [List.mem_singleton.1 hu]
    exact ⟨nofun, by decide, rfl⟩
  have hreads : Reads Reader.units [0x4E, 0x4C, 0x42, 0x43, 1, 0, 1, 0, 0, 0, 0, 0, 0, 0, 1, 0, 0, 0,
      7, 0, 0, 0x44, 0, 0, 0, 0, 3, 0, 0, 0, 0, 0, 0, 0, 0, 0, 0, 0]
      [{ instructions := [{ opcode := .halt }], lines := [3] }] := by
    refine Reads.units_of_cleared hnormal (by decide) (List.cons_ne_nil _ _) ?_
      ⟨by decide, by decide⟩
    intro i u hu offset ho
    match i, hu with
    | 0, hu => cases hu; cases ho
    | i + 1, hu => cases hu
  have haccepts := Accepts.of_reads hreads []
  obtain ⟨written, hwritten, hcleared, hagain, -⟩ := write?_of_accepts haccepts
  refine ⟨_, written, rfl, ?_, haccepts, hwritten, hagain [9]⟩
  rw [← hcleared.bits]
  decide

end ModuleHost
