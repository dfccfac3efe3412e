import ModuleHost.Proofs.Bytecode.NormalForm
import Mathlib.Data.List.TakeWhile

/-!
# Streams that are left unfinished

What is written of a group ends in front of the first length that is beyond the limit, and nothing
in the stream says so.  `Recovers r fields a` says what a reader makes of a row of fields, as far as
they are written: it takes the value `a` if all of them are, and otherwise it finds that the stream
has ended.  Fields are read one after the other, so this holds of a whole group
(`Recovers.units`): its stream is accepted if all of its lengths are within the limit, and a stream
that has been left unfinished is never taken for a shorter one (`read_writtenPart`).
-/

namespace ModuleHost

namespace Bytecode

namespace Field

/-- What is written of the fields: all of them up to the first length beyond the limit. -/
def written (fields : List Field) : List UInt8 := (fields.takeWhile fits).flatMap bytes

variable {fields more : List Field}

theorem written_of_fits (h : fields.all fits = true) : written fields = fields.flatMap bytes := by
  rw [written, List.takeWhile_eq_self_iff.2 (List.all_eq_true.1 h)]

theorem written_append_of_fits (h : fields.all fits = true) :
    written (fields ++ more) = written fields ++ written more := by
  rw [written, List.takeWhile_append_of_pos (List.all_eq_true.1 h), List.flatMap_append,
    written_of_fits h, written]

/-- Nothing is written behind a length beyond the limit. -/
theorem written_append_of_not_fits (h : ¬ fields.all fits = true) :
    written (fields ++ more) = written fields := by
  have hshort : (fields.takeWhile fits).length ≠ fields.length := by
    intro hlength
    have hwhole := (List.takeWhile_prefix fits).eq_of_length hlength
    exact h (List.all_eq_true.2 (List.takeWhile_eq_self_iff.1 hwhole))
  rw [written, List.takeWhile_append, if_neg hshort, written]

/-- The fields of a unit in the order in which they are read. -/
theorem ofUnit_in_order (u : CodeUnit) : ofUnit u
    = ofText (u.filename.getD "")
      ++ ((length u.instructions.length :: u.instructions.flatMap fun i => [plain i.encode])
      ++ (u.instructionLines.flatMap (fun n => [ofNumber n])
      ++ ((length u.symbols.length :: u.symbols.flatMap ofText)
      ++ ((length u.children.length :: u.children.flatMap fun n => [ofNumber n]) ++ [])))) := by
  simp only [ofUnit, List.map_eq_flatMap, List.append_assoc, List.append_nil]

end Field

/-- The reader takes `a` from the fields if all of them are written, and otherwise it comes to the
end of what is written. -/
structure Recovers {α : Type} (r : Reader α) (fields : List Field) (a : α) : Prop where
  whole : fields.all Field.fits = true → Reads r (Field.written fields) a
  part : ¬ fields.all Field.fits = true →
    r.run (Field.written fields) = .error (.stream .ended)

namespace Recovers

variable {α β : Type} {r : Reader α} {k : α → Reader β} {fields more : List Field} {a : α} {b : β}

/-! ### One field after the other -/

theorem pure (a : α) : Recovers (Pure.pure a) [] a := ⟨fun _ => .pure a, fun h => absurd rfl h⟩

/-- The second reader comes to the end unless the first one does. -/
theorem bind (h : Recovers r fields a) (h' : Recovers (k a) more b) :
    Recovers (r >>= k) (fields ++ more) b := by
  by_cases hfits : fields.all Field.fits = true
  · constructor
    · intro hall
      rw [List.all_append, Bool.and_eq_true] at hall
      rw [Field.written_append_of_fits hfits]
      exact (h.whole hfits).bind (h'.whole hall.2)
    · intro hall
      have hmore : ¬ more.all Field.fits = true := fun hmore =>
        hall (by rw [List.all_append, hfits, hmore]; rfl)
      rw [Field.written_append_of_fits hfits, StateT.run_bind, h.whole hfits]
      exact h'.part hmore
  · constructor
    · intro hall
      rw [List.all_append, Bool.and_eq_true] at hall
      exact absurd hall.1 hfits
    · intro _
      rw [Field.written_append_of_not_fits hfits, StateT.run_bind, h.part hfits]
      rfl

theorem sequential : Sequential @Recovers := ⟨pure, bind⟩

theorem bind_cons {field : Field} (h : Recovers r [field] a) (h' : Recovers (k a) more b) :
    Recovers (r >>= k) (field :: more) b := h.bind h'

/-- Plain bytes are always written. -/
theorem plain {bs : List UInt8} (h : Reads r bs a) : Recovers r [.plain bs] a := by
  refine ⟨fun hfits => ?_, fun hfits => absurd rfl hfits⟩
  rw [Field.written_of_fits hfits]
  show Reads r (bs ++ []) a
  rwa [List.append_nil]

/-- Where a length beyond the limit should be, there is nothing. -/
theorem length (n : Nat) : Recovers Reader.length [.length n] n := by
  by_cases hn : n ≤ maxLength
  · have hfits : [Field.length n].all Field.fits = true := by
      rw [List.all_cons, Field.fits, decide_eq_true hn]
      rfl
    refine ⟨fun _ => ?_, fun h => absurd hfits h⟩
    rw [Field.written_of_fits hfits]
    show Reads Reader.length (Bytes.littleEndian 4 n ++ []) n
    rw [List.append_nil]
    exact .length hn
  · have hbeyond : Field.fits (.length n) = false := decide_eq_false hn
    refine ⟨fun h => ?_, fun _ => ?_⟩
    · rw [List.all_cons, hbeyond] at h
      cases h
    · have hnothing : Field.written [.length n] = [] := by
        rw [Field.written, List.takeWhile_cons, hbeyond]
        rfl
      rw [hnothing]
      rfl

theorem text (s : String) : Recovers Reader.text (Field.ofText s) s := by
  rw [Reader.text]
  refine (length _).bind_cons ((plain (.bytes _)).bind ?_)
  rw [Bytes.toText?_ofText]
  exact pure s

/-! ### Tables -/

theorem table {γ : Type} {item : Nat → Reader β} {encode : γ → List Field} {value : γ → β}
    (xs : List γ)
    (h : ∀ position x, xs[position]? = some x → Recovers (item position) (encode x) (value x)) :
    Recovers (Reader.table item) (.length xs.length :: xs.flatMap encode) (xs.map value) := by
  refine (length _).bind_cons (sequential.repeated xs 0 ?_)
  intro position x hx
  rw [Nat.zero_add]
  exact h position x hx

/-! ### Units -/

theorem unit {total i : Nat} {u : CodeUnit} (hc : u.ChildrenWithin total i) :
    Recovers (Reader.unit total i) (Field.ofUnit u) u.normal := by
  have hi : Recovers (Reader.table (Reader.instruction i)) _
      (u.instructions.map Instruction.maskRegisters) :=
    table u.instructions fun position x _ => plain (.instruction i position x)
  have hn : Recovers (Reader.repeated (fun _ => Reader.number 4) 0 u.instructionLines.length) _
      (u.instructionLines.map UInt32.toNat) :=
    sequential.repeated u.instructionLines 0 fun _ n _ => plain (.line n)
  have hs : Recovers (Reader.table fun _ => Reader.text) _ (u.symbols.map id) :=
    table u.symbols fun _ s _ => text s
  have hk : Recovers (Reader.table fun _ => Reader.child total i) _ (u.children.map id) :=
    table u.children fun _ offset ho => plain (.child (hc offset (List.mem_of_getElem? ho)))
  have hlines : (u.instructions.map Instruction.maskRegisters).length
      = u.instructionLines.length := by
    rw [CodeUnit.instructionLines, List.length_map, List.length_map, List.length_range]
  rw [Field.ofUnit_in_order, Reader.unit]
  refine (text _).bind (hi.bind ?_)
  rw [hlines]
  refine hn.bind (hs.bind (hk.bind ?_))
  rw [u.normal_of_tables]
  exact pure _

/-- A group is recovered if it is written as a whole, and otherwise its stream ends too soon. -/
theorem units {us : List CodeUnit} (hne : us ≠ [])
    (hc : ∀ (i : Nat) (u : CodeUnit), us[i]? = some u → u.ChildrenWithin us.length i) :
    Recovers Reader.units (Field.ofUnits us) (us.map CodeUnit.normal) := by
  have hzero : us.length ≠ 0 := fun h => hne (List.eq_nil_of_length_eq_zero h)
  have hall : Recovers (Reader.repeated (Reader.unit us.length) 0 us.length)
      (us.flatMap Field.ofUnit) (us.map CodeUnit.normal) := by
    refine sequential.repeated us 0 fun position u hu => ?_
    rw [Nat.zero_add]
    exact unit (hc position u hu)
  rw [Reader.units]
  refine (plain (.bytes magic)).bind_cons ?_
  rw [if_neg (not_not_intro rfl)]
  refine (plain (.number (by decide))).bind_cons ?_
  rw [if_neg (not_not_intro rfl)]
  refine (length us.length).bind_cons ?_
  rw [if_neg hzero]
  exact hall

end Recovers

theorem write?_of_fits {us : List CodeUnit} (h : (Field.ofUnits us).all Field.fits = true) :
    write? us = some (writtenPart us) := by
  rw [write?, if_pos h, ← Field.written_of_fits h]
  rfl

theorem read_writtenPart_of_not_fits {us : List CodeUnit} (hne : us ≠ [])
    (hc : ∀ (i : Nat) (u : CodeUnit), us[i]? = some u → u.ChildrenWithin us.length i)
    (h : ¬ (Field.ofUnits us).all Field.fits = true) :
    read (writtenPart us) = .error (.stream .ended) := by
  show (Reader.units.run (Field.written (Field.ofUnits us))).map (·.1) = _
  rw [(Recovers.units hne hc).part h]
  rfl

/-! ### A long string -/

def loadingUnit (text : String) : CodeUnit where
  filename := some "test.nl"
  instructions := [{ opcode := .loadStr }, { opcode := .halt }]
  lines := [1, 1]
  symbols := [text]

theorem childrenWithin_loadingUnit (text : String) (i : Nat) (u : CodeUnit)
    (hu : [loadingUnit text][i]? = some u) : u.ChildrenWithin [loadingUnit text].length i := by
  obtain rfl := List.mem_singleton.1 (List.mem_of_getElem? hu)
  exact fun offset ho => absurd ho List.not_mem_nil

theorem utf8ByteSize_replicate (n : Nat) :
    (String.ofList (List.replicate n 'a')).utf8ByteSize = n := by
  induction n with
  | zero => rfl
  | succ n ih =>
    rw [List.replicate_succ', String.ofList_append, String.utf8ByteSize_append, ih]
    rfl

/-- A string of 2²⁴ + 1 bytes cannot be written. -/
theorem not_writable_loadingUnit :
    ¬ (loadingUnit (String.ofList (List.replicate 0x1000001 'a'))).Writable := by
  intro h
  have htext := h.texts _ (List.mem_singleton.2 rfl)
  rw [utf8ByteSize_replicate] at htext
  exact absurd htext (by decide)

/-! ### What is written is accepted or breaks off -/

/-- What is written of a group is accepted if and only if every count and every text is within the
limit.  Then nothing is missing, and it is read back whatever comes behind it.  Otherwise the stream
breaks off in front of a length, and all that a reader finds out is that it has ended. -/
theorem read_writtenPart {us : List CodeUnit} (hne : us ≠ [])
    (hc : ∀ (i : Nat) (u : CodeUnit), us[i]? = some u → u.ChildrenWithin us.length i) :
    ((us.length ≤ 0x1000000 ∧ ∀ u ∈ us, u.Writable) →
      write? us = some (writtenPart us)
        ∧ ∀ rest, read (writtenPart us ++ rest) = .ok (us.map CodeUnit.normal))
    ∧ (¬ (us.length ≤ 0x1000000 ∧ ∀ u ∈ us, u.Writable) →
      write? us = none ∧ read (writtenPart us) = .error (.stream .ended)) := by
  rw [← fits_iff_writable]
  constructor
  · intro hfits
    have hwritten := write?_of_fits hfits
    exact ⟨hwritten, read_of_write? hwritten hne hc⟩
  · intro hbeyond
    exact ⟨if_neg hbeyond, read_writtenPart_of_not_fits hne hc hbeyond⟩

/-- A string may have one byte, but not 2²⁴ + 1. -/
theorem read_writtenPart_string :
    read (writtenPart [loadingUnit "a"]) = .ok [loadingUnit "a"]
      ∧ read (writtenPart [loadingUnit (String.ofList (List.replicate 0x1000001 'a'))])
        = .error (.stream .ended) := by
  constructor
  · have hshort := (read_writtenPart (List.cons_ne_nil _ []) (childrenWithin_loadingUnit "a")).1
      ⟨by decide, fun u hu => by
        rw [List.mem_singleton.1 hu]
        exact ⟨by decide, by decide, by decide, by decide, by decide⟩⟩
    have hread := hshort.2 []
    rwa [List.append_nil] at hread
  · have hlong := (read_writtenPart (List.cons_ne_nil _ []) (childrenWithin_loadingUnit _)).2
      fun h => not_writable_loadingUnit (h.2 _ (List.mem_singleton.2 rfl))
    exact hlong.2

/-- The stream of a unit with a string of 2²⁴ + 1 bytes is not accepted. -/
theorem writtenPart_breaks_off :
    let us := [loadingUnit (String.ofList (List.replicate 0x1000001 'a'))]
    us ≠ [] ∧ (∀ (i : Nat) (u : CodeUnit), us[i]? = some u → u.ChildrenWithin us.length i)
      ∧ ∀ vs, read (writtenPart us) ≠ .ok vs := by
  intro us
  have hne : us ≠ [] := List.cons_ne_nil _ []
  have hfits : ¬ (Field.ofUnits us).all Field.fits = true := fun h =>
    not_writable_loadingUnit ((fits_iff_writable.1 h).2 _ (List.mem_singleton.2 rfl))
  refine ⟨hne, childrenWithin_loadingUnit _, fun vs hread => ?_⟩
  rw [read_writtenPart_of_not_fits hne (childrenWithin_loadingUnit _) hfits] at hread
  cases hread

end Bytecode

end ModuleHost
