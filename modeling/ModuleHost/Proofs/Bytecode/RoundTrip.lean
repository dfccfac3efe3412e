import ModuleHost.Bytecode.Reader
import ModuleHost.Bytecode.Writer
import ModuleHost.Proofs.Bytecode.Instructions
import Mathlib.Logic.Basic

/-!
# What is written is read back

`Reads r bytes a` says that a reader takes the value `a` from the very bytes `bytes`, whatever comes
behind them.  Each field that a unit is written as is read by its reader, so a whole stream is read
back (`read_of_write?`).  Only what the format does not hold is lost: `CodeUnit.normal`.
-/

namespace ModuleHost

/-- What is left of a unit in a stream: registers modulo 32, exactly one line for each instruction,
and no empty filename. -/
def CodeUnit.normal (u : CodeUnit) : CodeUnit :=
  { u with
    filename := if (u.filename.getD "").isEmpty then none else u.filename
    instructions := u.instructions.map Instruction.maskRegisters
    lines := u.instructionLines }

def CodeUnit.front (u : CodeUnit) : List UInt8 :=
  (Bytecode.Field.ofText (u.filename.getD "")
    ++ [Bytecode.Field.length u.instructions.length]).flatMap Bytecode.Field.bytes

def CodeUnit.back (u : CodeUnit) : List UInt8 :=
  (u.instructionLines.map Bytecode.Field.ofNumber
    ++ Bytecode.Field.length u.symbols.length :: u.symbols.flatMap Bytecode.Field.ofText
    ++ Bytecode.Field.length u.children.length
      :: u.children.map Bytecode.Field.ofNumber).flatMap Bytecode.Field.bytes

/-- All children lie among the `total` units behind the one at position `i`. -/
def CodeUnit.ChildrenWithin (u : CodeUnit) (total i : Nat) : Prop :=
  ∀ offset ∈ u.children, offset.toNat ≠ 0 ∧ i + offset.toNat < total

/-- The fields of a unit in the order in which they are read. -/
theorem CodeUnit.front_append_back (u : CodeUnit) (words : List UInt8) :
    u.front ++ (words ++ u.back)
      = (Bytecode.Field.ofText (u.filename.getD "")).flatMap Bytecode.Field.bytes
        ++ ((Bytes.littleEndian 4 u.instructions.length ++ words)
        ++ (u.instructionLines.flatMap (fun n => Bytes.littleEndian 4 n.toNat)
        ++ ((Bytes.littleEndian 4 u.symbols.length
            ++ u.symbols.flatMap fun s => (Bytecode.Field.ofText s).flatMap Bytecode.Field.bytes)
        ++ ((Bytes.littleEndian 4 u.children.length
            ++ u.children.flatMap fun n => Bytes.littleEndian 4 n.toNat) ++ [])))) := by
  simp only [front, back, List.flatMap_append, List.flatMap_cons, List.flatMap_nil,
    List.flatMap_map, List.flatMap_assoc, Bytecode.Field.bytes, Bytecode.Field.ofNumber,
    List.append_assoc, List.append_nil]

/-- The unit that is put together from what is read of its name and its tables. -/
theorem CodeUnit.normal_of_tables (u : CodeUnit) (instructions : List Instruction) :
    ({ filename := if (u.filename.getD "").isEmpty then none else some (u.filename.getD "")
       instructions, symbols := u.symbols.map id, children := u.children.map id
       lines := (u.instructionLines.map UInt32.toNat).map UInt32.ofNat } : CodeUnit)
      = { u.normal with instructions } := by
  have hfilename : (if (u.filename.getD "").isEmpty then none else some (u.filename.getD ""))
      = if (u.filename.getD "").isEmpty then none else u.filename := by
    cases u.filename <;> rfl
  have hnumbers : (u.instructionLines.map UInt32.toNat).map UInt32.ofNat = u.instructionLines := by
    rw [List.map_map]
    exact List.map_id'' (fun n => UInt32.ofNat_toNat) _
  rw [hfilename, hnumbers, List.map_id, List.map_id]
  rfl

namespace Bytecode

theorem Field.fits_ofText (s : String) :
    (Field.ofText s).all Field.fits = true ↔ (Bytes.ofText s).length ≤ maxLength := by
  simp [Field.ofText, Field.fits]

/-- A unit can be written if all of its lengths are within the limit. -/
theorem Field.ofUnit_fits (u : CodeUnit) :
    (Field.ofUnit u).all Field.fits = true
      ↔ (Bytes.ofText (u.filename.getD "")).length ≤ maxLength
        ∧ u.instructions.length ≤ maxLength ∧ u.symbols.length ≤ maxLength
        ∧ (∀ s ∈ u.symbols, (Bytes.ofText s).length ≤ maxLength)
        ∧ u.children.length ≤ maxLength := by
  have hplain : ∀ {γ : Type} (xs : List γ) (f : γ → List UInt8),
      (xs.map fun x => Field.plain (f x)).all Field.fits = true := by
    intro γ xs f
    rw [List.all_map, List.all_eq_true]
    intro x hx
    rfl
  have hnumbers : ∀ ns : List UInt32, (ns.map Field.ofNumber).all Field.fits = true :=
    fun ns => hplain ns _
  have htexts : (u.symbols.flatMap Field.ofText).all Field.fits = true
      ↔ ∀ s ∈ u.symbols, (Bytes.ofText s).length ≤ maxLength := by
    rw [List.all_flatMap, List.all_eq_true]
    exact forall₂_congr fun s _ => Field.fits_ofText s
  rw [Field.ofUnit]
  simp only [List.all_append, List.all_cons, Bool.and_eq_true, hplain, hnumbers, htexts,
    Field.fits_ofText, Field.fits, decide_eq_true_eq, and_true, and_assoc]

theorem Field.ofUnits_fits (us : List CodeUnit) :
    (Field.ofUnits us).all Field.fits = true
      ↔ us.length ≤ maxLength ∧ ∀ u ∈ us, (Field.ofUnit u).all Field.fits = true := by
  simp only [Field.ofUnits, List.all_cons, List.all_flatMap, Bool.and_eq_true, List.all_eq_true,
    Field.fits, decide_eq_true_eq, true_and]

theorem Field.bytes_ofUnit (u : CodeUnit) : (Field.ofUnit u).flatMap Field.bytes
    = u.front ++ (u.instructions.flatMap Instruction.encode ++ u.back) := by
  simp only [Field.ofUnit, CodeUnit.front, CodeUnit.back, List.flatMap_append, List.flatMap_cons,
    List.flatMap_nil, List.flatMap_map, Field.bytes, List.append_assoc, List.append_nil]

theorem Field.bytes_ofUnits (us : List CodeUnit) : (Field.ofUnits us).flatMap Field.bytes
    = magic ++ (Bytes.littleEndian 2 version ++ (Bytes.littleEndian 4 us.length
      ++ us.flatMap fun u => (Field.ofUnit u).flatMap Field.bytes)) := by
  simp only [Field.ofUnits, List.flatMap_cons, List.flatMap_assoc, Field.bytes]

/-- The bytes are made of pieces, one for each value and with the property. -/
inductive Pieces {α : Type} (P : List UInt8 → α → Prop) : List UInt8 → List α → Prop where
  | nil : Pieces P [] []
  | cons {piece bs : List UInt8} {x : α} {xs : List α} (head : P piece x) (tail : Pieces P bs xs) :
    Pieces P (piece ++ bs) (x :: xs)

theorem Pieces.of_flatMap {α γ : Type} {P : List UInt8 → α → Prop} {encode : γ → List UInt8}
    {value : γ → α} {xs : List γ} (h : ∀ x ∈ xs, P (encode x) (value x)) :
    Pieces P (xs.flatMap encode) (xs.map value) := by
  induction xs with
  | nil => exact .nil
  | cons x xs ih =>
    rw [List.flatMap_cons, List.map_cons]
    exact .cons (h x List.mem_cons_self) (ih fun y hy => h y (List.mem_cons_of_mem x hy))

theorem Pieces.exists_pairs {α : Type} {P : List UInt8 → α → Prop} {bs : List UInt8} {xs : List α}
    (h : Pieces P bs xs) : ∃ pairs : List (List UInt8 × α),
      bs = pairs.flatMap Prod.fst ∧ xs = pairs.map Prod.snd ∧ ∀ pair ∈ pairs, P pair.1 pair.2 := by
  induction h with
  | nil => exact ⟨[], rfl, rfl, nofun⟩
  | @cons piece bs x xs head tail ih =>
    obtain ⟨pairs, rfl, rfl, hpairs⟩ := ih
    exact ⟨(piece, x) :: pairs, rfl, rfl, List.forall_mem_cons.2 ⟨head, hpairs⟩⟩

/-- What is said of a reader, a row that is there to be read and the value that the reader takes
holds of two readers, one after the other, if it holds of each. -/
structure Sequential {ε : Type} (P : (α : Type) → Reader α → List ε → α → Prop) : Prop where
  pure : ∀ {α : Type} (a : α), P α (Pure.pure a) [] a
  bind : ∀ {α β : Type} {r : Reader α} {k : α → Reader β} {row row' : List ε} {a : α} {b : β},
    P α r row a → P β (k a) row' b → P β (r >>= k) (row ++ row') b

namespace Sequential

variable {α β ε : Type} {P : (α : Type) → Reader α → List ε → α → Prop}

theorem bind_pure (hP : Sequential P) {r : Reader α} {row : List ε} {a : α} {f : α → β}
    (h : P α r row a) : P β (r >>= fun x => Pure.pure (f x)) row (f a) := by
  have hb := hP.bind (k := fun x => Pure.pure (f x)) h (hP.pure (f a))
  rwa [List.append_nil] at hb

/-- Items are read one after the other, each at its position. -/
theorem repeated {γ : Type} (hP : Sequential P) {item : Nat → Reader β} {encode : γ → List ε}
    {value : γ → β} (xs : List γ) (start : Nat)
    (h : ∀ position x, xs[position]? = some x →
      P β (item (start + position)) (encode x) (value x)) :
    P (List β) (Reader.repeated item start xs.length) (xs.flatMap encode) (xs.map value) := by
  induction xs generalizing start with
  | nil => exact hP.pure []
  | cons x xs ih =>
    have hfirst := h 0 x rfl
    have hrest : P (List β) (Reader.repeated item (start + 1) xs.length) (xs.flatMap encode)
        (xs.map value) := by
      apply ih
      intro position y hy
      have hnext := h (position + 1) y hy
      rwa [show start + (position + 1) = start + 1 + position by omega] at hnext
    rw [List.length_cons, Reader.repeated, List.flatMap_cons, List.map_cons]
    exact hP.bind hfirst (hP.bind_pure hrest)

end Sequential

/-- The reader takes `a` from `bytes` and leaves what comes behind them. -/
def Reads {α : Type} (r : Reader α) (bytes : List UInt8) (a : α) : Prop :=
  ∀ rest, r.run (bytes ++ rest) = .ok (a, rest)

namespace Reads

variable {α β : Type} {r : Reader α} {bs cs : List UInt8} {a : α} {b : β}

theorem pure (a : α) : Reads (Pure.pure a) [] a := fun _ => rfl

theorem bind {k : α → Reader β} (h : Reads r bs a) (h' : Reads (k a) cs b) :
    Reads (r >>= k) (bs ++ cs) b := by
  intro rest
  rw [StateT.run_bind, List.append_assoc, h]
  exact h' rest

theorem sequential : Sequential @Reads := ⟨pure, bind⟩

/-! ### Numbers and texts -/

theorem bytes (bs : List UInt8) : Reads (Reader.bytes bs.length) bs bs := by
  intro rest
  show (if ((bs ++ rest).take bs.length).length = bs.length then
    Except.ok ((bs ++ rest).take bs.length, (bs ++ rest).drop bs.length)
    else Except.error (DecodeError.stream .ended)) = _
  rw [List.take_left, List.drop_left, if_pos rfl]

theorem number {width n : Nat} (h : n < Bytes.capacity width) :
    Reads (Reader.number width) (Bytes.littleEndian width n) n := by
  have hbytes := bytes (Bytes.littleEndian width n)
  rw [Bytes.length_littleEndian] at hbytes
  have hn := sequential.bind_pure (f := Bytes.ofLittleEndian) hbytes
  rwa [Bytes.ofLittleEndian_littleEndian, Nat.mod_eq_of_lt h] at hn

theorem length {n : Nat} (h : n ≤ maxLength) : Reads Reader.length (Bytes.littleEndian 4 n) n := by
  have hn : Reads (Reader.number 4) (Bytes.littleEndian 4 n) n :=
    number (Nat.lt_of_le_of_lt h (by decide))
  intro rest
  rw [Reader.length, StateT.run_bind, hn]
  show (if n > maxLength then _ else _ : Reader Nat).run rest = _
  rw [if_neg (Nat.not_lt.2 h)]
  rfl

theorem text {s : String} (h : (Bytes.ofText s).length ≤ maxLength) :
    Reads Reader.text ((Field.ofText s).flatMap Field.bytes) s := by
  have hbytes : (Field.ofText s).flatMap Field.bytes
      = Bytes.littleEndian 4 (Bytes.ofText s).length ++ (Bytes.ofText s ++ []) := rfl
  rw [hbytes, Reader.text]
  refine (length h).bind ((bytes _).bind ?_)
  rw [Bytes.toText?_ofText]
  exact pure s

/-! ### Tables -/

/-- Each piece is read at its position. -/
theorem pieces {item : Nat → Reader β} {P : List UInt8 → β → Prop} {xs : List β}
    (hpieces : Pieces P bs xs) (start : Nat)
    (h : ∀ position piece x, xs[position]? = some x → P piece x →
      Reads (item (start + position)) piece x) :
    Reads (Reader.repeated item start xs.length) bs xs := by
  obtain ⟨pairs, rfl, rfl, hpairs⟩ := hpieces.exists_pairs
  have hall : Reads (Reader.repeated item start pairs.length) (pairs.flatMap Prod.fst)
      (pairs.map Prod.snd) := by
    refine sequential.repeated pairs start fun position pair hpair => ?_
    refine h position pair.1 pair.2 ?_ (hpairs pair (List.mem_of_getElem? hpair))
    rw [List.getElem?_map, hpair, Option.map_some]
  rwa [List.length_map]

theorem table {γ : Type} {item : Nat → Reader β} {encode : γ → List UInt8} {value : γ → β}
    (xs : List γ) (hl : xs.length ≤ maxLength)
    (h : ∀ position x, xs[position]? = some x → Reads (item position) (encode x) (value x)) :
    Reads (Reader.table item) (Bytes.littleEndian 4 xs.length ++ xs.flatMap encode)
      (xs.map value) := by
  refine (length hl).bind (sequential.repeated xs 0 ?_)
  intro position x hx
  rw [Nat.zero_add]
  exact h position x hx

/-! ### Units -/

theorem instruction_of_decode? {unit position : Nat} {word : List UInt8} {i : Instruction}
    (hlength : word.length = Instruction.encodedSize)
    (hdecode : Instruction.decode? word = some i) :
    Reads (Reader.instruction unit position) word i := by
  have hbytes := bytes word
  rw [hlength] at hbytes
  rw [Reader.instruction, ← List.append_nil word]
  refine hbytes.bind ?_
  rw [hdecode]
  exact pure _

theorem instruction (unit position : Nat) (i : Instruction) :
    Reads (Reader.instruction unit position) i.encode i.maskRegisters :=
  instruction_of_decode? i.length_encode i.decode?_encode

theorem line (n : UInt32) :
    Reads (Reader.number 4) (Bytes.littleEndian 4 n.toNat) n.toNat := number n.toNat_lt

theorem child {total unit : Nat} {offset : UInt32}
    (h : offset.toNat ≠ 0 ∧ unit + offset.toNat < total) :
    Reads (Reader.child total unit) (Bytes.littleEndian 4 offset.toNat) offset := by
  have hnot : ¬ (offset.toNat = 0 ∨ unit + offset.toNat ≥ total) := by omega
  intro rest
  rw [Reader.child, StateT.run_bind, line offset]
  show (if offset.toNat = 0 ∨ unit + offset.toNat ≥ total then _ else _ :
    Reader UInt32).run rest = _
  rw [if_neg hnot]
  show Except.ok (UInt32.ofNat offset.toNat, rest) = Except.ok (offset, rest)
  rw [UInt32.ofNat_toNat]

/-- The words of a unit may be any that are read as its instructions. -/
theorem unit_of_words {total i : Nat} {u : CodeUnit} {words : List UInt8}
    {instructions : List Instruction}
    (hwords : Pieces (fun word x => ∀ position, Reads (Reader.instruction i position) word x) words
      instructions)
    (hlength : instructions.length = u.instructions.length)
    (hfits : (Field.ofUnit u).all Field.fits = true) (hc : u.ChildrenWithin total i) :
    Reads (Reader.unit total i) (u.front ++ (words ++ u.back))
      { u.normal with instructions } := by
  rw [Field.ofUnit_fits] at hfits
  obtain ⟨hname, hinstructions, hsymbols, htexts, hchildren⟩ := hfits
  have hlines : instructions.length = u.instructionLines.length := by
    rw [CodeUnit.instructionLines, List.length_map, List.length_range, hlength]
  have hi : Reads (Reader.table (Reader.instruction i)) _ instructions :=
    (length (hlength ▸ hinstructions)).bind (pieces hwords 0 fun _ _ _ _ hword => hword _)
  have hn : Reads (Reader.repeated (fun _ => Reader.number 4) 0 u.instructionLines.length) _
      (u.instructionLines.map UInt32.toNat) :=
    sequential.repeated u.instructionLines 0 fun position n _ => line n
  have hs : Reads (Reader.table fun _ => Reader.text) _ (u.symbols.map id) :=
    table u.symbols hsymbols fun position s hs => text (htexts s (List.mem_of_getElem? hs))
  have hk : Reads (Reader.table fun _ => Reader.child total i) _ (u.children.map id) :=
    table u.children hchildren fun position offset ho =>
      child (hc offset (List.mem_of_getElem? ho))
  rw [CodeUnit.front_append_back, ← hlength, Reader.unit]
  refine (text hname).bind (hi.bind ?_)
  rw [hlines]
  refine hn.bind (hs.bind (hk.bind ?_))
  rw [← u.normal_of_tables instructions]
  exact pure _

theorem unit {total i : Nat} {u : CodeUnit} (hfits : (Field.ofUnit u).all Field.fits = true)
    (hc : u.ChildrenWithin total i) :
    Reads (Reader.unit total i) ((Field.ofUnit u).flatMap Field.bytes) u.normal := by
  have hwords : Pieces (fun word x => ∀ position, Reads (Reader.instruction i position) word x)
      (u.instructions.flatMap Instruction.encode) (u.instructions.map Instruction.maskRegisters) :=
    Pieces.of_flatMap fun x _ position => instruction i position x
  rw [Field.bytes_ofUnit]
  exact unit_of_words hwords (List.length_map _) hfits hc

/-- A stream whose units are read one after the other is read. -/
theorem units_of_pieces {us : List CodeUnit} {bs : List UInt8} (hcount : us.length ≤ maxLength)
    (hne : us ≠ [])
    (hc : ∀ (i : Nat) (u : CodeUnit), us[i]? = some u → u.ChildrenWithin us.length i)
    (hpieces : Pieces (fun piece u => ∀ i, u.ChildrenWithin us.length i →
      Reads (Reader.unit us.length i) piece u) bs us) :
    Reads Reader.units
      (magic ++ (Bytes.littleEndian 2 version ++ (Bytes.littleEndian 4 us.length ++ bs))) us := by
  have hzero : us.length ≠ 0 := fun h => hne (List.eq_nil_of_length_eq_zero h)
  have hall : Reads (Reader.repeated (Reader.unit us.length) 0 us.length) bs us := by
    refine pieces hpieces 0 fun position piece u hu hpiece => ?_
    rw [Nat.zero_add]
    exact hpiece position (hc position u hu)
  rw [Reader.units]
  refine (bytes magic).bind ?_
  rw [if_neg (not_not_intro rfl)]
  refine (number (by decide)).bind ?_
  rw [if_neg (not_not_intro rfl)]
  refine (length hcount).bind ?_
  rw [if_neg hzero]
  exact hall

theorem units {us : List CodeUnit} (hfits : (Field.ofUnits us).all Field.fits = true)
    (hne : us ≠ [])
    (hc : ∀ (i : Nat) (u : CodeUnit), us[i]? = some u → u.ChildrenWithin us.length i) :
    Reads Reader.units ((Field.ofUnits us).flatMap Field.bytes) (us.map CodeUnit.normal) := by
  rw [Field.ofUnits_fits] at hfits
  obtain ⟨hcount, hunits⟩ := hfits
  have hlength : (us.map CodeUnit.normal).length = us.length := List.length_map _
  have hpieces : Pieces (fun piece (v : CodeUnit) => ∀ i, v.ChildrenWithin us.length i →
      Reads (Reader.unit us.length i) piece v)
      (us.flatMap fun u => (Field.ofUnit u).flatMap Field.bytes) (us.map CodeUnit.normal) :=
    Pieces.of_flatMap fun u hu _ hwithin => unit (hunits u hu) hwithin
  rw [Field.bytes_ofUnits, ← hlength]
  refine units_of_pieces (hlength ▸ hcount) (fun h => hne (List.map_eq_nil_iff.1 h)) ?_ ?_
  · intro i v hv
    rw [List.getElem?_map, Option.map_eq_some_iff] at hv
    obtain ⟨u, hu, rfl⟩ := hv
    rw [hlength]
    exact hc i u hu
  · rw [hlength]
    exact hpieces

end Reads

/-- A stream is read back, with whatever comes behind it. -/
theorem read_of_write? {us : List CodeUnit} {bytes : List UInt8} (hw : write? us = some bytes)
    (hne : us ≠ [])
    (hc : ∀ (i : Nat) (u : CodeUnit), us[i]? = some u → u.ChildrenWithin us.length i)
    (rest : List UInt8) : read (bytes ++ rest) = .ok (us.map CodeUnit.normal) := by
  unfold write? at hw
  split at hw
  · next hfits =>
    cases hw
    rw [read, Reads.units hfits hne hc]
    rfl
  · cases hw

end Bytecode

end ModuleHost
