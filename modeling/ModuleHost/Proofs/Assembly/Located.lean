import ModuleHost.Proofs.Assembly.Operations
import ModuleHost.Proofs.Assembly.Programs
import ModuleHost.Proofs.Assembly.Targets

/-!
# Where items stand

The items of an outline come from statements.  Those of a unit stand in the order of their lines,
each of them is what the statement on its line gives, and no label is defined twice (`Arranged`).
The definitions at the top level are those of the functions, in the order in which these start
(`Outline.Defines`).
-/

namespace ModuleHost.Assembly

def Statement.Gives : Statement → Item → Prop
  | .label name, item => item = .label name
  | .operation op, item => item = .operation op
  | .functionStart word?, item =>
    ∃ child, item = .operation (bindingOf child (String.ofList (word?.getD [])))
  | .blank, _ | .functionEnd, _ => False

/-- The items of a unit of a source with these statements. -/
structure Arranged (ss : List Statement) (items : List (Item × Nat)) : Prop where
  sorted : (items.map Prod.snd).Pairwise (· < ·)
  /-- Lines are counted from 1. -/
  given : ∀ item ∈ items, ∃ k s, item.2 = k + 1 ∧ ss[k]? = some s ∧ s.Gives item.1
  distinct : (labelNames items).Nodup

namespace Arranged

variable {ss : List Statement} {items : List (Item × Nat)} {s : Statement} {item : Item}

theorem nil (ss : List Statement) : Arranged ss [] := ⟨.nil, nofun, .nil⟩

theorem line_bounds (h : Arranged ss items) :
    ∀ item ∈ items, 1 ≤ item.2 ∧ item.2 ≤ ss.length := by
  intro item hitem
  obtain ⟨k, s, hline, hs, -⟩ := h.given item hitem
  have hlt : k < ss.length := (List.getElem?_eq_some_iff.1 hs).1
  omega

theorem later (h : Arranged ss items) (s : Statement) : Arranged (ss ++ [s]) items where
  sorted := h.sorted
  given item hitem := by
    obtain ⟨k, s', hline, hs, hgives⟩ := h.given item hitem
    refine ⟨k, s', hline, ?_, hgives⟩
    rw [List.getElem?_append_left (List.getElem?_eq_some_iff.1 hs).1, hs]
  distinct := h.distinct

/-- The next statement gives one more item. -/
theorem concat (h : Arranged ss items) (hs : s.Gives item)
    (hnew : ∀ name ∈ item.label?, name ∉ labelNames items) :
    Arranged (ss ++ [s]) (items ++ [(item, ss.length + 1)]) where
  sorted := by
    rw [List.map_append, List.pairwise_append]
    refine ⟨h.sorted, List.pairwise_singleton _ _, fun line hline line' hline' => ?_⟩
    obtain ⟨item', hitem', rfl⟩ := List.mem_map.1 hline
    rw [List.mem_singleton.1 hline']
    exact Nat.lt_succ_of_le (h.line_bounds item' hitem').2
  given item' hitem' := by
    rcases List.mem_append.1 hitem' with hold | hitem'
    · exact (h.later s).given item' hold
    · rw [List.mem_singleton.1 hitem']
      exact ⟨ss.length, s, rfl, List.getElem?_concat_length, hs⟩
  distinct := by
    rw [labelNames_append, List.nodup_append]
    refine ⟨h.distinct, ?_, fun name hname name' hname' heq => ?_⟩
    · cases item with
      | label name => exact List.pairwise_singleton _ name
      | operation op => exact List.nodup_nil
    · cases item with
      | label label =>
        rw [List.mem_singleton.1 hname'] at heq
        exact hnew label rfl (heq ▸ hname)
      | operation op => cases hname'

end Arranged

/-! ### Outlines -/

structure Outline.Arranged (o : Outline) (ss : List Statement) : Prop where
  top : Assembly.Arranged ss o.top
  blocks : ∀ b ∈ o.blocks, Assembly.Arranged ss b.items

variable {o : Outline} {ss : List Statement} {s : Statement} {item : Item}

/-- An item goes to the unit that is being made. -/
theorem Outline.Arranged.add (h : o.Arranged ss) (hs : s.Gives item)
    (hnew : ∀ name ∈ item.label?, name ∉ labelNames o.items) :
    (o.add item (ss.length + 1)).Arranged (ss ++ [s]) := by
  obtain ⟨top, functions, current⟩ := o
  cases current with
  | none => exact ⟨h.top.concat hs hnew, fun b hb => (h.blocks b hb).later s⟩
  | some b =>
    refine ⟨h.top.later s, fun b' hb' => ?_⟩
    rcases List.mem_append.1 hb' with hb' | hb'
    · exact (h.blocks b' (List.mem_append_left _ hb')).later s
    · rw [List.mem_singleton.1 hb']
      exact (h.blocks b (List.mem_append_right functions List.mem_cons_self)).concat hs hnew

theorem Outline.Arranged.statement (h : o.Arranged ss) (ha : o.Accepts s) :
    (o.statement (ss.length + 1) s).Arranged (ss ++ [s]) := by
  cases s with
  | blank => exact ⟨h.top.later _, fun b hb => (h.blocks b hb).later _⟩
  | operation op => exact h.add rfl nofun
  | label name =>
    refine h.add rfl fun name' hname => ?_
    cases hname
    exact lookup_labelsIn_eq_none_iff.1 ha
  | functionEnd =>
    refine ⟨h.top.later _, fun b hb => ?_⟩
    rw [o.blocks_functionEnd] at hb
    exact (h.blocks b hb).later _
  | functionStart word? =>
    refine ⟨h.top.concat ⟨o.functions.length, rfl⟩ nofun, fun b hb => ?_⟩
    rcases List.mem_append.1 hb with hb | hb
    · exact (h.blocks b (List.mem_append_left _ hb)).later _
    · rw [List.mem_singleton.1 hb]
      exact .nil _

theorem Outline.Arranged.statements (h : o.Arranged ss) {ss' : List Statement}
    (ha : o.AcceptsAll (ss.length + 1) ss') :
    (o.statements (ss.length + 1) ss').Arranged (ss ++ ss') := by
  induction ss' generalizing o ss with
  | nil =>
    rw [List.append_nil]
    exact h
  | cons s ss' ih =>
    have hnext := ih (h.statement ha.1)
    rw [List.length_append, List.append_assoc] at hnext
    exact hnext ha.2

theorem arranged_statements (ha : Outline.AcceptsAll {} 1 ss) :
    (Outline.statements {} 1 ss).Arranged ss := by
  have hstart : Outline.Arranged {} [] := ⟨.nil [], nofun⟩
  exact hstart.statements ha

/-! ### Definitions of functions -/

def Statement.started? : Statement → Option String
  | .functionStart word? => some (String.ofList (word?.getD []))
  | _ => none

theorem filterMap_started?_concat (ss : List Statement) {s : Statement} (hs : s.started? = none) :
    (ss ++ [s]).filterMap Statement.started? = ss.filterMap Statement.started? := by
  rw [List.filterMap_append, List.filterMap_cons_none hs]
  exact List.append_nil _

def definitionsIn (items : List (Item × Nat)) : List Operation :=
  ((operationsIn items).map Prod.fst).filter (·.instruction.opcode = .define)

theorem definitionsIn_append (items items' : List (Item × Nat)) :
    definitionsIn (items ++ items') = definitionsIn items ++ definitionsIn items' := by
  rw [definitionsIn, operationsIn_append, List.map_append, List.filter_append]
  rfl

theorem definitionsIn_of_valid (hvalid : item.Valid) (line : Nat) :
    definitionsIn [(item, line)] = [] := by
  cases item with
  | label name => rfl
  | operation op =>
    have hnot : ¬ decide (op.instruction.opcode = .define) = true := by
      rw [decide_eq_true_iff]
      exact Operation.Valid.notDefinition hvalid
    exact List.filter_cons_of_neg hnot

/-- The functions have the names with which they start, and the definitions are theirs. -/
structure Outline.Defines (o : Outline) (ss : List Statement) : Prop where
  names : o.blocks.map Block.name = ss.filterMap Statement.started?
  definitions : definitionsIn o.top
    = (ss.filterMap Statement.started?).zipIdx.map fun d => bindingOf d.2 d.1

theorem Outline.Defines.add (h : o.Defines ss) (hvalid : item.Valid) (hs : s.started? = none)
    (line : Nat) : (o.add item line).Defines (ss ++ [s]) := by
  have hstarted := filterMap_started?_concat ss hs
  obtain ⟨top, functions, current⟩ := o
  obtain ⟨hnames, hdefinitions⟩ := h
  cases current with
  | none =>
    refine ⟨hstarted ▸ hnames, ?_⟩
    show definitionsIn (top ++ [(item, line)]) = _
    rw [definitionsIn_append, definitionsIn_of_valid hvalid, List.append_nil, hstarted]
    exact hdefinitions
  | some b =>
    refine ⟨?_, hstarted ▸ hdefinitions⟩
    rw [hstarted, ← hnames, blocks, blocks, List.map_append, List.map_append]
    rfl

theorem Outline.Defines.statement (h : o.Defines ss) (ha : o.Accepts s) (hs : s.Valid)
    (line : Nat) : (o.statement line s).Defines (ss ++ [s]) := by
  cases s with
  | operation op =>
    have hitem : (Item.operation op).Valid := hs
    exact h.add hitem rfl line
  | label name =>
    have hitem : (Item.label name).Valid := trivial
    exact h.add hitem rfl line
  | blank =>
    have hstarted := filterMap_started?_concat ss (s := .blank) rfl
    exact ⟨hstarted ▸ h.names, hstarted ▸ h.definitions⟩
  | functionEnd =>
    have hstarted := filterMap_started?_concat ss (s := .functionEnd) rfl
    refine ⟨?_, hstarted ▸ h.definitions⟩
    rw [hstarted, o.blocks_functionEnd, h.names]
  | functionStart word? =>
    obtain ⟨hcurrent, -⟩ := ha
    obtain ⟨top, functions, current⟩ := o
    obtain rfl : current = none := hcurrent
    obtain ⟨hnames, hdefinitions⟩ := h
    have hnames' : functions.map Block.name = ss.filterMap Statement.started? := by
      rw [← hnames]
      exact congrArg (List.map Block.name) (List.append_nil functions).symm
    have hlength : (ss.filterMap Statement.started?).length = functions.length := by
      rw [← hnames', List.length_map]
    constructor
    · rw [List.filterMap_append, ← hnames']
      exact List.map_append
    · show definitionsIn (top ++ [_]) = _
      rw [definitionsIn_append, hdefinitions, List.filterMap_append, List.zipIdx_append,
        List.map_append, Nat.zero_add, hlength]
      rfl

theorem Outline.Defines.statements (h : o.Defines ss) {ss' : List Statement} {line : Nat}
    (ha : o.AcceptsAll line ss') (hs : ∀ s ∈ ss', s.Valid) :
    (o.statements line ss').Defines (ss ++ ss') := by
  induction ss' generalizing o ss line with
  | nil =>
    rw [List.append_nil]
    exact h
  | cons s ss' ih =>
    have hnext := ih (h.statement ha.1 (hs s List.mem_cons_self) line) ha.2
      fun s' hs' => hs s' (List.mem_cons_of_mem s hs')
    rw [List.append_assoc] at hnext
    exact hnext

theorem defines_statements (ha : Outline.AcceptsAll {} 1 ss) (hs : ∀ s ∈ ss, s.Valid) :
    (Outline.statements {} 1 ss).Defines ss := by
  have hstart : Outline.Defines {} [] := ⟨rfl, rfl⟩
  exact hstart.statements ha hs

end ModuleHost.Assembly
