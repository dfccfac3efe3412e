import ModuleHost.Proofs.Assembly.Groups
import ModuleHost.Proofs.Bytecode.NormalForm

/-!
# Sources go through a stream

What a source is assembled into has registers that exist, one line for each instruction, and
children inside the group, so nothing of it is lost in a stream (`read_of_assemble`).  Loading a
source by way of its temporary file therefore puts the very units into the table that it is
assembled into, attributed to its path, and enters the first of them (`Machine.loadSource_of_ok`).
-/

namespace ModuleHost

open Assembly

variable {filename source path : String} {us : List CodeUnit} {bytes : List UInt8}

/-- A unit that holds what lines say is in normal form. -/
theorem CodeUnit.Holds.isNormal {u : CodeUnit} {function : Option String}
    {items : List (Item × Nat)} (h : u.Holds filename function items) (hne : filename ≠ "")
    {count : Nat} (hitems : ∀ item ∈ items, item.1.ProperFor count) : u.IsNormal := by
  refine ⟨fun hname => ?_, h.registersValid hitems, h.length_lines⟩
  rw [h.filename] at hname
  exact hne (Option.some.inj hname)

/-- What a source is assembled into is in normal form. -/
theorem normal_of_assemble (h : assemble source filename = .ok us) (hne : filename ≠ "") :
    ∀ u ∈ us, u.normal = u := by
  intro u hu
  obtain ⟨-, hholds⟩ := exists_holds_of_assemble h
  obtain ⟨k, hk⟩ := List.mem_iff_getElem?.1 hu
  obtain ⟨-, function, items, hitems, -, hproper⟩ := hholds k u hk
  exact (hitems.isNormal hne hproper).normal

/-- What a source is assembled into names registers that exist. -/
theorem registersValid_of_assemble (h : assemble source filename = .ok us) :
    ∀ u ∈ us, ∀ i ∈ u.instructions, i.RegistersValid := by
  intro u hu
  obtain ⟨-, hholds⟩ := exists_holds_of_assemble h
  obtain ⟨k, hk⟩ := List.mem_iff_getElem?.1 hu
  obtain ⟨-, function, items, hitems, -, hproper⟩ := hholds k u hk
  exact hitems.registersValid hproper

/-- The stream of what a source is assembled into is read back in normal form. -/
theorem read_normal_of_assemble (h : assemble source filename = .ok us)
    (hw : Bytecode.write? us = some bytes) :
    Bytecode.read bytes = .ok (us.map CodeUnit.normal) := by
  obtain ⟨hunits, hholds⟩ := exists_holds_of_assemble h
  have hread := Bytecode.read_of_write? hw hunits (fun k u hk => (hholds k u hk).1) []
  rwa [List.append_nil] at hread

/-- The stream of what a source is assembled into is read back as it was. -/
theorem read_of_assemble (h : assemble source filename = .ok us) (hne : filename ≠ "")
    (hw : Bytecode.write? us = some bytes) : Bytecode.read bytes = .ok us := by
  have hread := read_normal_of_assemble h hw
  rwa [List.map_congr_left (normal_of_assemble h hne), List.map_id'] at hread

/-- The units are read back from their stream as they were. -/
def Bytecode.Lossless (us : List CodeUnit) : Prop :=
  ∀ bytes, Bytecode.write? us = some bytes → Bytecode.read bytes = .ok us

theorem lossless_of_assemble (h : assemble source filename = .ok us) (hne : filename ≠ "") :
    Bytecode.Lossless us := fun _ hw => read_of_assemble h hne hw

/-- What is written to the temporary file is found in it. -/
def World.Keeps (w : World) (artifact? : Option Artifact) : Prop :=
  ∃ a, artifact? = some a
    ∧ ∀ bytes, (w.writeArtifact a bytes).files.entryAt? a.location = some (.file bytes)

theorem World.keeps_of_createArtifact {w world : World} {config : LoaderConfig} {a : Artifact}
    (h : w.createArtifact config = (.ok a, world)) : world.Keeps (some a) := by
  refine ⟨a, rfl, fun bytes => ?_⟩
  obtain ⟨next, -, ⟨e, he⟩ | ⟨a', hv, ha⟩⟩ := World.createArtifact_cases config w
  · rw [he] at h
    cases h
  · rw [ha] at h
    cases h
    show ((w.files.insert a.location _).replace a.location _).entryAt? a.location = _
    rw [FileTree.entryAt?_written hv, if_pos rfl]

/-- The empty path leads nowhere. -/
theorem World.ne_empty_of_readText {w : World} (h : w.readText path = .ok source) : path ≠ "" := by
  rintro rfl
  cases h

namespace Machine

variable {m : Machine} {l : Load} {a : Artifact} {world : World}

/-- Units that have been compiled go through the temporary file of their load. -/
theorem loadCompiledUnits_of_keeps (ha : l.artifact = some a)
    (hkeeps : ∀ bytes, (m.world.writeArtifact a bytes).files.entryAt? a.location
      = some (.file bytes)) (hw : Bytecode.write? us = some bytes) (path : String) :
    m.loadCompiledUnits l path us
      = { m with world := m.world.writeArtifact a bytes }.loadStream l a.path path (.ok bytes) := by
  rw [loadCompiledUnits, ha, hw]
  dsimp only
  rw [hkeeps]
  rfl

section

variable (hread : m.world.readText path = .ok source)
  (hcreate : m.world.createArtifact m.host.config = (.ok a, world))

include hread hcreate

theorem loadSource_eq (l : Load) :
    m.loadSource l path
      = { m with world }.compileAndLoad { l with artifact := some a } path source := by
  rw [loadSource, hread]
  dsimp only
  rw [hcreate]

theorem loadSource_of_error {e : Assembly.Error} (h : assemble source path = .error e) (l : Load) :
    m.loadSource l path
      = { m with world }.failLoad { l with artifact := some a } (.uncompiled path e.message) := by
  rw [loadSource_eq hread hcreate, compileAndLoad, h]

variable (h : assemble source path = .ok us) (hcompiler : m.host.compiler = .onRequest)

include h hcompiler

theorem loadSource_of_assemble (l : Load) :
    m.loadSource l path
      = { m with world }.loadCompiledUnits { l with artifact := some a } path us := by
  rw [loadSource_eq hread hcreate, compileAndLoad, h]
  dsimp only
  rw [hcompiler]
  rfl

/-- Loading a source puts its units into the table and enters the first of them. -/
theorem loadSource_of_ok (hw : Bytecode.write? us = some bytes)
    (hmark : l.arenaMark = m.host.arena.length) :
    m.loadSource l path
      = ({ m with
          host := m.host.appendUnits (CodeUnit.placed path us)
          world := world.writeArtifact a bytes }.push
            (.load { l with artifact := some a })).enterTopLevel m.host.units.length := by
  have hback : Bytecode.readStream (.ok bytes) = .ok us :=
    read_of_assemble h (World.ne_empty_of_readText hread) hw
  obtain ⟨a', ha, hkeeps⟩ := World.keeps_of_createArtifact hcreate
  obtain rfl := Option.some.inj ha
  rw [loadSource_of_assemble hread hcreate h hcompiler,
    loadCompiledUnits_of_keeps (m := { m with world }) rfl hkeeps hw]
  exact loadStream_of_mark { m with world := world.writeArtifact a bytes }
    { l with artifact := some a } hback hmark a.path path

end

end Machine

end ModuleHost
