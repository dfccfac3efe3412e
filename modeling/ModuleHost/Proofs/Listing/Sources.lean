import ModuleHost.Proofs.Assembly.WellMade
import ModuleHost.Proofs.Bytecode.NormalForm
import ModuleHost.Proofs.Listing.Lines

/-!
# Listings of sources

What a source is assembled into has nothing in it that a listing does not show: the fields that an
operation does not use are 0, and every instruction has a line.  So the listing of a source decides
the instructions, the lines and the symbols of its units (`listing_hides_nothing`).
-/

namespace ModuleHost

variable {i : Instruction} {imm : Int32}

/-- An immediate that refers to something is shown as it is. -/
theorem Instruction.shown_with_imm
    (h : i.opcode.hasSymbolOperand = true ∨ i.opcode.jumps = true) :
    { i with imm }.shown = { i.shown with imm } := by
  obtain ⟨op, dest, src1, src2, mode, own⟩ := i
  cases op <;> first | rfl | simp [Opcode.hasSymbolOperand, Opcode.jumps] at h

namespace Assembly

/-! ### Operations -/

/-- A listing hides nothing of what the operation becomes. -/
structure Operation.Plain (op : Operation) : Prop where
  shown : op.instruction.shown = op.instruction
  refers : op.reference ≠ .literal →
    op.instruction.opcode.hasSymbolOperand = true ∨ op.instruction.opcode.jumps = true

variable {op : Operation} {ss : List Statement} {items : List (Item × Nat)} {source : String}

theorem Operation.Plain.shown_of_becomes (h : op.Plain) {symbols : List String}
    {labels : List (String × Nat)} (hb : op.Becomes symbols labels i) : i.shown = i := by
  unfold Operation.Becomes at hb
  split at hb
  · rw [hb, h.shown]
  · next text href =>
    obtain ⟨k, -, rfl⟩ := hb
    rw [Instruction.shown_with_imm (h.refers (href ▸ nofun)), h.shown]
  · next name href =>
    obtain ⟨target, -, rfl⟩ := hb
    rw [Instruction.shown_with_imm (h.refers (href ▸ nofun)), h.shown]

theorem plain_bindingOf (child : Nat) (name : String) : (bindingOf child name).Plain :=
  ⟨rfl, fun _ => Or.inl rfl⟩

/-- An operation with an immediate of its own, or with none. -/
theorem plain_of_shown (h : i.shown = i) : Operation.Plain { instruction := i } :=
  ⟨h, fun hne => absurd rfl hne⟩

/-- The fields that a spelled instruction does not use are 0. -/
theorem Code.plain (c : Code) : c.operation.Plain := by
  cases c with
  | nop | halt | mov | loadInt | loadNil | loadSelf | raise | ret => exact plain_of_shown rfl
  | loadBool dest value => cases value <;> exact plain_of_shown rfl
  | arith op dest left right =>
    refine plain_of_shown ?_
    rw [Instruction.shown, ArithOp.ofCode?_code]
    rfl
  | loadStr | getGlobal | setGlobal | call => exact ⟨rfl, fun _ => Or.inl rfl⟩
  | jump | jumpIf | jumpUnless => exact ⟨rfl, fun _ => Or.inr rfl⟩

/-! ### Units -/

/-- The operations among the items of a source hide nothing. -/
theorem Arranged.plain (h : Arranged ss items)
    (hlines : (Text.lines source.toList).mapM Statement.ofLine = .ok ss)
    (hop : (Item.operation op) ∈ items.map Prod.fst) : op.Plain := by
  obtain ⟨⟨_, line⟩, hitem, rfl⟩ := List.mem_map.1 hop
  obtain ⟨k, s, -, hs, hgives⟩ := h.given _ hitem
  obtain ⟨text, -, hread⟩ := getElem?_of_forall₂ (forall₂_of_mapM hlines) hs
  cases s with
  | operation op' =>
    cases hgives
    obtain ⟨c, rfl⟩ := exists_code_of_ofLine hread
    exact c.plain
  | functionStart word? =>
    obtain ⟨child, hbinding⟩ := hgives
    rw [Item.operation.inj hbinding]
    exact plain_bindingOf _ _
  | label name => cases hgives
  | blank | functionEnd => exact hgives.elim

end Assembly

open Assembly

/-- What a listing with line numbers shows of a unit of a file is all that is in its code. -/
structure CodeUnit.Legible (filename : String) (u : CodeUnit) : Prop where
  filename : u.filename = some filename
  length : u.lines.length = u.instructions.length
  shown : ∀ i ∈ u.instructions, i.shown = i

theorem CodeUnit.Holds.legible {u : CodeUnit} {filename : String} {function : Option String}
    {items : List (Item × Nat)} (h : u.Holds filename function items)
    (hitems : ∀ op, Item.operation op ∈ items.map Prod.fst → op.Plain) : u.Legible filename where
  filename := h.filename
  length := h.length_lines
  shown i hi := by
    obtain ⟨position, hat⟩ := List.mem_iff_getElem?.1 hi
    rcases h.instruction_cases hat with ⟨op, hop, hb⟩ | hclosing
    · have hmem := mem_of_mem_operationsIn (List.mem_of_getElem? hop)
      exact (hitems op.1 (List.mem_map_of_mem hmem)).shown_of_becomes hb
    · have hall : ∀ opcode ∈ [Opcode.halt, .loadNil, .ret],
          ({ opcode } : Instruction).shown = { opcode } := by decide
      obtain ⟨opcode, hopcode, rfl⟩ := mem_closingOf hclosing
      exact hall opcode hopcode

theorem legible_of_assemble {source filename : String} {us : List CodeUnit}
    (h : assemble source filename = .ok us) : ∀ u ∈ us, u.Legible filename := by
  obtain ⟨ss, hwell, top, functions, rfl, htop, -, hfunctions⟩ := outline_of_assemble h
  have harranged := arranged_statements hwell.accepted
  intro u hu
  rcases List.mem_cons.1 hu with rfl | hu
  · exact htop.legible fun op hop => harranged.top.plain hwell.lines hop
  · obtain ⟨b, hb, hcodes, -⟩ := exists_of_forall₂ hfunctions hu
    have hblock := harranged.blocks b (hwell.complete.blocks ▸ hb)
    exact hcodes.legible fun op hop => hblock.plain hwell.lines hop

/-! ### Units of one listing -/

/-- The units have the same instructions on the same lines, and the same symbols where the
instructions name them. -/
structure CodeUnit.SameLines (u v : CodeUnit) : Prop where
  instructions : u.instructions = v.instructions
  lines : u.lines = v.lines
  symbols : ∀ i ∈ u.instructions, i.opcode.hasSymbolOperand = true →
    u.symbol? i.imm = v.symbol? i.imm

namespace CodeUnit.Legible

variable {u v : CodeUnit} {filename : String}

theorem length_rows (u : CodeUnit) : (Listing.rows u).length = u.instructions.length :=
  List.length_mapIdx

theorem instructions_eq (h : u.Legible filename) :
    u.instructions = (Listing.rows u).map (·.instruction) := by
  apply List.ext_getElem
  · rw [List.length_map, length_rows]
  · intro k hk _
    simp only [Listing.rows, Listing.rowAt, List.getElem_map, List.getElem_mapIdx,
      h.shown _ (List.getElem_mem hk)]

theorem lines_eq (h : u.Legible filename) : u.lines = (Listing.rows u).map (·.line) := by
  apply List.ext_getElem
  · rw [List.length_map, length_rows, h.length]
  · intro k hk _
    simp only [Listing.rows, Listing.rowAt, List.getElem_map, List.getElem_mapIdx, lineAt,
      List.getElem?_eq_getElem hk, Option.getD_some]

/-- Units that show the same rows have the same code. -/
theorem sameLines (hu : u.Legible filename) (hv : v.Legible filename)
    (h : Listing.rows u = Listing.rows v) : u.SameLines v := by
  have hinstructions : u.instructions = v.instructions := by
    rw [hu.instructions_eq, hv.instructions_eq, h]
  refine ⟨hinstructions, by rw [hu.lines_eq, hv.lines_eq, h], fun i hi hsymbol => ?_⟩
  obtain ⟨position, hat⟩ := List.mem_iff_getElem?.1 hi
  have hrow := congrArg (fun rows => rows[position]?) h
  simp only [Listing.rows, List.getElem?_mapIdx, ← hinstructions, hat, Option.map_some,
    Option.some.injEq] at hrow
  have hshown := congrArg Listing.Row.symbol? hrow
  rw [Listing.rowAt, Listing.rowAt, Listing.shownSymbol?, Listing.shownSymbol?, if_pos hsymbol,
    if_pos hsymbol] at hshown
  exact hshown

end CodeUnit.Legible

theorem forall₂_sameLines {us vs : List CodeUnit} {filename : String}
    (hus : ∀ u ∈ us, u.Legible filename) (hvs : ∀ v ∈ vs, v.Legible filename)
    (h : us.map Listing.rows = vs.map Listing.rows) : List.Forall₂ CodeUnit.SameLines us vs := by
  induction us generalizing vs with
  | nil =>
    cases vs with
    | nil => exact .nil
    | cons v vs => cases h
  | cons u us ih =>
    cases vs with
    | nil => cases h
    | cons v vs =>
      obtain ⟨hrows, hrest⟩ := List.cons.inj h
      exact .cons ((hus u List.mem_cons_self).sameLines (hvs v List.mem_cons_self) hrows)
        (ih (fun u' hu' => hus u' (List.mem_cons_of_mem u hu'))
          (fun v' hv' => hvs v' (List.mem_cons_of_mem v hv')) hrest)

/-- A listing hides nothing: sources of one file with the same listing have as many units, of the
same code. -/
theorem listing_hides_nothing {source source' filename : String} {us us' : List CodeUnit}
    (h : assemble source filename = .ok us) (h' : assemble source' filename = .ok us')
    (hlisting : Listing.ofUnits true us = Listing.ofUnits true us') :
    us.length = us'.length ∧ List.Forall₂ CodeUnit.SameLines us us' := by
  have hus := legible_of_assemble h
  have hus' := legible_of_assemble h'
  have hrows := Listing.rows_eq_of_ofUnits_eq (fun u hu => (hus u hu).filename)
    (fun u hu => (hus' u hu).filename) hlisting
  have hsame := forall₂_sameLines hus hus' hrows
  exact ⟨hsame.length_eq, hsame⟩

/-- Two spellings of a function that loads a text with a semicolon, a line break and a quote. -/
theorem listing_hides_nothing_spellings :
    ∃ us us',
      assemble ".def f\nstr r1, \"a; \\n\\\"\"\nbool r2, true\n.end\ncall r0, f" "a.nl" = .ok us
      ∧ assemble ".def f ; text\n STR R1,\"a; \\n\\\"\"\nbool r02, true #\n.end\ncall r0, f, r0, 0"
        "a.nl" = .ok us'
      ∧ Listing.ofUnits true us = Listing.ofUnits true us'
      ∧ us.length = us'.length ∧ List.Forall₂ CodeUnit.SameLines us us' := by
  let top : CodeUnit := {
    filename := some "a.nl"
    instructions := [{ opcode := .define }, { opcode := .call }, { opcode := .halt }]
    lines := [1, 5, 5]
    symbols := ["f"]
    children := [1] }
  let function : CodeUnit := {
    filename := some "a.nl"
    instructions := [{ opcode := .loadStr, dest := 1 },
      { opcode := .loadBool, dest := 2, imm := 1 }, { opcode := .loadNil }, { opcode := .ret }]
    lines := [2, 3, 3, 3]
    symbols := ["a; \n\""] }
  have h : assemble ".def f\nstr r1, \"a; \\n\\\"\"\nbool r2, true\n.end\ncall r0, f" "a.nl"
      = .ok [top, function] := by decide +kernel
  have h' : assemble
      ".def f ; text\n STR R1,\"a; \\n\\\"\"\nbool r02, true #\n.end\ncall r0, f, r0, 0" "a.nl"
      = .ok [top, function] := by decide +kernel
  exact ⟨_, _, h, h', rfl, listing_hides_nothing h h' rfl⟩

end ModuleHost
