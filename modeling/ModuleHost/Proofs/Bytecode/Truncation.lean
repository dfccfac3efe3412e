import ModuleHost.Machine.Host
import ModuleHost.Proofs.Bytecode.Accepted

/-!
# Streams that are cut off

A reader sees of a stream only the bytes that it takes.  When it has taken a value from the front of
a stream, it takes the same value from every stream with this front, and from a shorter one it gets
nothing but the answer that the stream has ended.  `Takes` says so of one value; `Exact` says that
every value is taken in this way, and holds of whatever readers are put together from exact ones.
So no stream of units can be cut off unnoticed (`accepts_cut`).
-/

namespace ModuleHost

namespace Bytecode

section

variable {α β : Type} {r : Reader α} {k : α → Reader β} {P : List UInt8 → α → Prop}
  {Q : List UInt8 → β → Prop} {bs cs : List UInt8} {a : α} {b : β}

/-- Whenever the reader takes a value from the front of a stream, the bytes that it takes and the
value have the property. -/
def Yields (r : Reader α) (P : List UInt8 → α → Prop) : Prop :=
  ∀ input a rest, r.run input = .ok (a, rest) → ∃ taken, input = taken ++ rest ∧ P taken a

/-- The reader takes the value `a` from the very bytes `bs`, and all of them are needed. -/
structure Takes (r : Reader α) (bs : List UInt8) (a : α) : Prop where
  reads : Reads r bs a
  cut : ∀ front, front <+: bs → front ≠ bs → r.run front = .error (.stream .ended)

/-- Whatever the reader takes it takes from the bytes that it needs. -/
def Exact (r : Reader α) : Prop := Yields r (Takes r)

/-! ### Yields -/

namespace Yields

theorem pure (h : P [] a) : Yields (Pure.pure a) P := by
  intro input b rest hrun
  cases hrun
  exact ⟨[], rfl, h⟩

theorem throw (e : DecodeError) : Yields (throw e : Reader α) P := by
  intro input a rest hrun
  cases hrun

theorem bind (h : Yields r P)
    (hk : ∀ bs a, P bs a → Yields (k a) fun cs b => Q (bs ++ cs) b) : Yields (r >>= k) Q := by
  intro input b rest hrun
  rw [StateT.run_bind] at hrun
  cases hr : r.run input with
  | error e =>
    rw [hr] at hrun
    cases hrun
  | ok first =>
    rw [hr] at hrun
    obtain ⟨bs, hinput, hfirst⟩ := h input first.1 first.2 hr
    obtain ⟨cs, hmiddle, hsecond⟩ := hk bs first.1 hfirst first.2 b rest hrun
    refine ⟨bs ++ cs, ?_, hsecond⟩
    rw [hinput, hmiddle, List.append_assoc]

/-- A check that throws unless it passes. -/
theorem check {c : Prop} [Decidable c] {e : DecodeError} {k : PUnit → Reader β}
    (h : ¬ c → Yields (k ⟨⟩) Q) :
    Yields (if c then (MonadExcept.throw e : Reader PUnit) >>= k else k ⟨⟩) Q := by
  by_cases hc : c
  · rw [if_pos hc]
    exact throw e
  · rw [if_neg hc]
    exact h hc

theorem bytes (n : Nat) : Yields (Reader.bytes n) fun bs taken => bs.length = n ∧ taken = bs := by
  intro input taken rest hrun
  unfold Reader.bytes StateT.run at hrun
  dsimp only at hrun
  split at hrun
  · next hlength =>
    cases hrun
    exact ⟨input.take n, (List.take_append_drop n input).symm, hlength, rfl⟩
  · cases hrun

theorem imp {P' : List UInt8 → α → Prop} (h : Yields r P) (hp : ∀ bs a, P bs a → P' bs a) :
    Yields r P' := by
  intro input a rest hrun
  obtain ⟨bs, hinput, ha⟩ := h input a rest hrun
  exact ⟨bs, hinput, hp bs a ha⟩

end Yields

/-! ### Takes -/

namespace Takes

theorem pure (a : α) : Takes (Pure.pure a) [] a := by
  refine ⟨.pure a, fun front hfront hne => ?_⟩
  exact absurd (List.prefix_nil.1 hfront) hne

theorem bytes (bs : List UInt8) : Takes (Reader.bytes bs.length) bs bs := by
  refine ⟨.bytes bs, fun front hfront hne => ?_⟩
  have hlt : front.length < bs.length := by
    rcases Nat.lt_or_ge front.length bs.length with hlt | hge
    · exact hlt
    · exact absurd (hfront.eq_of_length_le hge) hne
  show (if (front.take bs.length).length = bs.length then _ else _ : Except DecodeError _) = _
  rw [if_neg]
  rw [List.length_take]
  omega

/-- Where a stream is cut off, either the first reader misses something or the second one does. -/
theorem bind (h : Takes r bs a) (h' : Takes (k a) cs b) : Takes (r >>= k) (bs ++ cs) b := by
  refine ⟨h.reads.bind h'.reads, fun front hfront hne => ?_⟩
  rw [StateT.run_bind]
  rcases List.prefix_or_prefix_of_prefix hfront (List.prefix_append bs cs) with hshort | hlong
  · by_cases heq : front = bs
    · have hcs : [] ≠ cs := by
        rintro rfl
        exact hne (heq.trans (List.append_nil bs).symm)
      have hread := h.reads []
      rw [List.append_nil] at hread
      rw [heq, hread]
      exact h'.cut [] List.nil_prefix hcs
    · rw [h.cut front hshort heq]
      rfl
  · obtain ⟨front', rfl⟩ := hlong
    have hfront' : front' <+: cs := (List.prefix_append_right_inj bs).1 hfront
    have hne' : front' ≠ cs := by
      rintro rfl
      exact hne rfl
    rw [h.reads front']
    exact h'.cut front' hfront' hne'

end Takes

/-! ### Exact readers -/

namespace Exact

theorem pure (a : α) : Exact (Pure.pure a) := Yields.pure (.pure a)

theorem throw (e : DecodeError) : Exact (MonadExcept.throw e : Reader α) := Yields.throw e

theorem bind (h : Exact r) (hk : ∀ a, Exact (k a)) : Exact (r >>= k) :=
  Yields.bind h fun _ a ha => (hk a).imp fun _ _ hb => ha.bind hb

theorem check {c : Prop} [Decidable c] {e : DecodeError} {k : PUnit → Reader β}
    (h : ¬ c → Exact (k ⟨⟩)) :
    Exact (if c then (MonadExcept.throw e : Reader PUnit) >>= k else k ⟨⟩) := by
  by_cases hc : c
  · rw [if_pos hc]
    exact Yields.throw e
  · rw [if_neg hc]
    exact h hc

theorem bytes (n : Nat) : Exact (Reader.bytes n) := by
  refine (Yields.bytes n).imp fun bs taken htaken => ?_
  obtain ⟨rfl, rfl⟩ := htaken
  exact Takes.bytes taken

theorem number (width : Nat) : Exact (Reader.number width) :=
  (bytes width).bind fun _ => pure _

theorem length : Exact Reader.length :=
  (number 4).bind fun _ => check fun _ => pure _

theorem text : Exact Reader.text := by
  refine length.bind fun n => (bytes n).bind fun bs => ?_
  cases Bytes.toText? bs with
  | some s => exact pure s
  | none => exact throw _

theorem repeated {item : Nat → Reader α} (h : ∀ position, Exact (item position))
    (start count : Nat) : Exact (Reader.repeated item start count) := by
  induction count generalizing start with
  | zero => exact pure []
  | succ count ih => exact (h start).bind fun first => (ih (start + 1)).bind fun rest => pure _

theorem table {item : Nat → Reader α} (h : ∀ position, Exact (item position)) :
    Exact (Reader.table item) := length.bind fun count => repeated h 0 count

theorem instruction (unit position : Nat) : Exact (Reader.instruction unit position) := by
  refine (bytes Instruction.encodedSize).bind fun bs => ?_
  cases Instruction.decode? bs with
  | some i => exact pure i
  | none => exact throw _

theorem child (total unit : Nat) : Exact (Reader.child total unit) :=
  (number 4).bind fun _ => check fun _ => pure _

theorem unit (total position : Nat) : Exact (Reader.unit total position) := by
  refine text.bind fun filename => ?_
  refine (table (instruction position)).bind fun instructions => ?_
  refine (repeated (fun _ => number 4) 0 _).bind fun lines => ?_
  refine (table fun _ => text).bind fun symbols => ?_
  exact (table fun _ => child total position).bind fun children => pure _

theorem units : Exact Reader.units := by
  refine (bytes magic.length).bind fun found => check fun _ => ?_
  refine (number 2).bind fun found => check fun _ => ?_
  refine length.bind fun total => check fun _ => ?_
  exact repeated (unit total) 0 total

end Exact

end

/-! ### Accepted streams -/

/-- The stream is accepted, and its first `n` bytes hold the units. -/
structure Accepts (stream : List UInt8) (n : Nat) (us : List CodeUnit) : Prop where
  le : n ≤ stream.length
  run : Reader.units.run stream = .ok (us, stream.drop n)

theorem read_eq_ok_iff {stream : List UInt8} {us : List CodeUnit} :
    read stream = .ok us ↔ ∃ n, Accepts stream n us := by
  unfold read
  constructor
  · intro h
    cases hrun : Reader.units.run stream with
    | error e =>
      rw [hrun] at h
      cases h
    | ok taken =>
      rw [hrun] at h
      cases h
      obtain ⟨bs, hstream, -⟩ := Exact.units stream taken.1 taken.2 hrun
      refine ⟨bs.length, ?_, ?_⟩
      · rw [hstream, List.length_append]
        omega
      · rw [hrun, hstream, List.drop_left]
  · rintro ⟨n, -, hrun⟩
    rw [hrun]
    rfl

/-- What the reader yields, the first bytes of an accepted stream have. -/
theorem Accepts.yields {stream : List UInt8} {n : Nat} {us : List CodeUnit}
    {P : List UInt8 → List CodeUnit → Prop} (h : Accepts stream n us)
    (hyields : Yields Reader.units P) : P (stream.take n) us := by
  obtain ⟨bs, hstream, hbs⟩ := hyields stream us _ h.run
  have htake : stream.take n = bs := by
    have happend : stream.take n ++ stream.drop n = bs ++ stream.drop n := by
      rw [List.take_append_drop, ← hstream]
    exact List.append_cancel_right happend
  rwa [htake]

theorem Accepts.takes {stream : List UInt8} {n : Nat} {us : List CodeUnit}
    (h : Accepts stream n us) : Takes Reader.units (stream.take n) us :=
  h.yields Exact.units

theorem Accepts.of_reads {bs : List UInt8} {us : List CodeUnit} (h : Reads Reader.units bs us)
    (rest : List UInt8) : Accepts (bs ++ rest) bs.length us := by
  refine ⟨?_, ?_⟩
  · rw [List.length_append]
    omega
  · rw [h rest, List.drop_left]

/-- From a shorter stream nothing is read. -/
theorem Takes.read_cut {bs : List UInt8} {us : List CodeUnit} (h : Takes Reader.units bs us)
    {front : List UInt8} (hfront : front <+: bs) (hne : front ≠ bs) :
    read front = .error (.stream .ended) := by
  rw [read, h.cut front hfront hne]
  rfl

end Bytecode

open Bytecode

/-- Of an accepted stream the first bytes, which hold the units, decide: whatever stands behind them
the same units are read, and when one or more of them are missing at the end, the stream is refused
because it has ended.  And a host to which a stream is refused stays as it is, but for the exception
that is left pending by a stream of another version. -/
theorem accepts_cut {stream : List UInt8} {n : Nat} {us : List CodeUnit}
    (h : Accepts stream n us) :
    (∀ rest, Accepts (stream.take n ++ rest) n us)
      ∧ (∀ front, front <+: stream.take n → front ≠ stream.take n →
          read front = .error (.stream .ended))
      ∧ ∀ (host : Host) (refused : Except StreamFault (List UInt8)) (e : DecodeError),
          readStream refused = .error e →
          ∃ pending, host.readUnits refused = (.error e, { host with pending })
            ∧ (∀ found, e = .unsupportedVersion found →
                pending = some { className := "ScriptError", message := e.message })
            ∧ ((∀ found, e ≠ .unsupportedVersion found) → pending = host.pending) := by
  have htakes := h.takes
  refine ⟨fun rest => ?_, fun front hfront hne => ?_, fun host refused e he => ?_⟩
  · have haccepts := Accepts.of_reads htakes.reads rest
    rwa [List.length_take, Nat.min_eq_left h.le] at haccepts
  · exact htakes.read_cut hfront hne
  · refine ⟨(Host.pendingFor? e).or host.pending, ?_, ?_, ?_⟩
    · rw [Host.readUnits, he]
    · rintro found rfl
      rfl
    · intro hversion
      cases e with
      | unsupportedVersion found => exact absurd rfl (hversion found)
      | _ => rfl

/-- A unit of one instruction in 38 bytes, of which the last one is cut off, and a stream of version
9. -/
theorem accepts_cut_halt :
    ∃ stream : List UInt8,
      Accepts (stream ++ [7]) 38 [{ instructions := [{ opcode := .halt }], lines := [3] }]
      ∧ Accepts (stream ++ [8, 9]) 38 [{ instructions := [{ opcode := .halt }], lines := [3] }]
      ∧ read stream.dropLast = .error (.stream .ended)
      ∧ ∃ pending, ({} : Host).readUnits (.ok (magic ++ [9, 0]))
          = (.error (.unsupportedVersion 9), { pending := some pending }) := by
  have hreads : Reads Reader.units
      ((Field.ofUnits [{ instructions := [{ opcode := .halt }], lines := [3] }]).flatMap Field.bytes)
      [{ instructions := [{ opcode := .halt }], lines := [3] }] :=
    @Reads.units [{ instructions := [{ opcode := .halt }], lines := [3] }] (by decide)
      (List.cons_ne_nil _ _) (by
        intro i u hu offset ho
        match i, hu with
        | 0, hu => cases hu; cases ho
        | i + 1, hu => cases hu)
  have haccepts := Accepts.of_reads hreads [7]
  have hcut := accepts_cut haccepts
  rw [List.take_left] at hcut
  refine ⟨_, haccepts, hcut.1 [8, 9], hcut.2.1 _ (List.dropLast_prefix _) (by decide), ?_⟩
  obtain ⟨pending, hpending, hversion, -⟩ :=
    hcut.2.2 {} (.ok (magic ++ [9, 0])) (.unsupportedVersion 9) (by rfl)
  exact ⟨_, by rw [hpending, hversion 9 rfl]⟩

end ModuleHost
