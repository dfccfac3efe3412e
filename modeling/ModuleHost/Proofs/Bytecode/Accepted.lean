import ModuleHost.Proofs.Bytecode.RoundTrip

/-!
# What a reader accepts

`Ensures r P` says that every value the reader takes from a stream has the property `P`, whatever
the stream is.  So a stream that is accepted holds at least one unit, and its units refer to units
behind them in the same stream (`read_accepted`).
-/

namespace ModuleHost.Bytecode

/-- Every value that the reader takes has the property. -/
def Ensures {α : Type} (r : Reader α) (P : α → Prop) : Prop :=
  ∀ input a rest, r.run input = .ok (a, rest) → P a

namespace Ensures

variable {α β : Type} {r : Reader α} {P : α → Prop} {Q : β → Prop}

theorem pure {a : α} (h : P a) : Ensures (Pure.pure a) P := by
  intro input b rest hrun
  cases hrun
  exact h

theorem bind {k : α → Reader β} (h : Ensures r P) (hk : ∀ a, P a → Ensures (k a) Q) :
    Ensures (r >>= k) Q := by
  intro input b rest hrun
  rw [StateT.run_bind] at hrun
  cases hr : r.run input with
  | error e =>
    rw [hr] at hrun
    cases hrun
  | ok taken =>
    rw [hr] at hrun
    exact hk taken.1 (h input taken.1 taken.2 hr) taken.2 b rest hrun

theorem true (r : Reader α) : Ensures r fun _ => True := fun _ _ _ _ => trivial

/-- A check that throws unless it passes. -/
theorem check {c : Prop} [Decidable c] {e : DecodeError} {k : PUnit → Reader β}
    (h : ¬ c → Ensures (k ⟨⟩) Q) :
    Ensures (if c then (throw e : Reader PUnit) >>= k else k ⟨⟩) Q := by
  by_cases hc : c
  · rw [if_pos hc]
    intro input b rest hrun
    cases hrun
  · rw [if_neg hc]
    exact h hc

theorem number (width : Nat) : Ensures (Reader.number width) (· < Bytes.capacity width) := by
  intro input n rest hrun
  rw [Reader.number, StateT.run_bind] at hrun
  cases hb : (Reader.bytes width).run input with
  | error e =>
    rw [hb] at hrun
    cases hrun
  | ok taken =>
    rw [hb] at hrun
    cases hrun
    have hlength : taken.1.length = width := by
      unfold Reader.bytes StateT.run at hb
      dsimp only at hb
      split at hb
      · cases hb
        assumption
      · cases hb
    exact hlength ▸ Bytes.ofLittleEndian_lt taken.1

/-- What every item has at its position, all items have. -/
theorem repeated {item : Nat → Reader α} {P : Nat → α → Prop} (start count : Nat)
    (h : ∀ position, Ensures (item position) (P position)) :
    Ensures (Reader.repeated item start count) fun xs =>
      xs.length = count ∧ ∀ k x, xs[k]? = some x → P (start + k) x := by
  induction count generalizing start with
  | zero => exact .pure ⟨rfl, nofun⟩
  | succ count ih =>
    refine (h start).bind fun x hx => (ih (start + 1)).bind fun xs hxs => .pure ?_
    obtain ⟨hlength, hat⟩ := hxs
    refine ⟨congrArg Nat.succ hlength, fun k y hy => ?_⟩
    cases k with
    | zero =>
      cases hy
      exact hx
    | succ k =>
      have hnext := hat k y hy
      rwa [show start + 1 + k = start + (k + 1) by omega] at hnext

/-- What every item of a table has. -/
theorem table {item : Nat → Reader α} (h : ∀ position, Ensures (item position) P) :
    Ensures (Reader.table item) fun xs => ∀ x ∈ xs, P x := by
  refine (Ensures.true Reader.length).bind fun count _ => ?_
  intro input xs rest hrun x hx
  obtain ⟨k, hk⟩ := List.mem_iff_getElem?.1 hx
  exact (repeated 0 count (P := fun _ => P) h input xs rest hrun).2 k x hk

theorem child (total unit : Nat) : Ensures (Reader.child total unit) fun offset =>
    offset.toNat ≠ 0 ∧ unit + offset.toNat < total := by
  refine (number 4).bind fun n hn => check fun hc => .pure ?_
  have hlt : n < 2 ^ 32 := hn
  rw [UInt32.toNat_ofNat_of_lt' hlt]
  omega

theorem unit (total position : Nat) : Ensures (Reader.unit total position) fun (u : CodeUnit) =>
    u.ChildrenWithin total position := by
  refine (Ensures.true _).bind fun filename _ => ?_
  refine (Ensures.true _).bind fun instructions _ => ?_
  refine (Ensures.true _).bind fun lines _ => ?_
  refine (Ensures.true _).bind fun symbols _ => ?_
  exact (table fun _ => child total position).bind fun children hchildren => .pure hchildren

theorem units : Ensures Reader.units fun us =>
    us ≠ [] ∧ ∀ k (u : CodeUnit), us[k]? = some u → u.ChildrenWithin us.length k := by
  refine (Ensures.true _).bind fun found _ => check fun _ => ?_
  refine (Ensures.true _).bind fun found _ => check fun _ => ?_
  refine (Ensures.true _).bind fun total _ => check fun htotal => ?_
  intro input us rest hrun
  obtain ⟨hlength, hat⟩ := repeated 0 total (unit total) input us rest hrun
  constructor
  · rintro rfl
    exact htotal hlength.symm
  · intro k u hu
    have hwithin := hat k u hu
    rwa [Nat.zero_add, ← hlength] at hwithin

end Ensures

/-- A stream that is accepted holds units that refer to each other. -/
theorem read_accepted {stream : List UInt8} {us : List CodeUnit} (h : read stream = .ok us) :
    us ≠ [] ∧ ∀ k (u : CodeUnit), us[k]? = some u → u.ChildrenWithin us.length k := by
  unfold read at h
  cases hrun : Reader.units.run stream with
  | error e =>
    rw [hrun] at h
    cases h
  | ok taken =>
    rw [hrun] at h
    cases h
    exact Ensures.units stream taken.1 taken.2 hrun

end ModuleHost.Bytecode
