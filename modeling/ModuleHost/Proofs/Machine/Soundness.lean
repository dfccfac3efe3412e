import ModuleHost.Proofs.Assembly.Groups
import ModuleHost.Proofs.Loading.Availability
import ModuleHost.Proofs.Machine.Executed

/-!
# Sound machines

A step raises a runtime error exactly where the next instruction lacks what it asks for, a
misstep, or where it says itself that one is to be raised (`Machine.fetch_raises_iff`).

A machine is sound if the tables of units of all its hosts are, every function is a unit of the
table, and every frame runs one.  Steps keep it so (`Machine.Sound.step`) as long as the modules
that are loaded are sources that are not too long; so no frame ever makes a misstep
(`Machine.Sound.not_misstep`).
-/

namespace ModuleHost

/-! ### Missteps -/

/-- The next instruction of the frame lacks what it asks for, which raises a runtime error with this
message. -/
inductive Machine.Misstep (m : Machine) (f : Frame) : String → Prop
  | unit (hu : m.host.units[f.unit]? = none) :
      Misstep m f ("no unit at index " ++ toString f.unit)
  | symbol {u : CodeUnit} {i : Instruction} (hu : m.host.units[f.unit]? = some u)
      (hi : u.instructions[f.position]? = some i) (hop : i.opcode.hasSymbolOperand = true)
      (hn : u.symbol? i.imm = none) :
      Misstep m f ("invalid symbol index " ++ toString i.imm.toInt)
  | arith {u : CodeUnit} {i : Instruction} (hu : m.host.units[f.unit]? = some u)
      (hi : u.instructions[f.position]? = some i) (hop : i.opcode = .arith)
      (hm : ArithOp.ofCode? i.mode = none) :
      Misstep m f ("invalid ALU mode " ++ toString i.mode.toNat)
  | window {u : CodeUnit} {i : Instruction} {name : String} (hu : m.host.units[f.unit]? = some u)
      (hi : u.instructions[f.position]? = some i) (hop : i.opcode = .call)
      (hn : u.symbol? i.imm = some name) (hw : f.window? i.src1.toNat i.mode.toNat = none) :
      Misstep m f ("call arguments r" ++ toString i.src1.toNat ++ "..r"
        ++ toString (i.src1.toNat + i.mode.toNat) ++ " out of range")
  | child {u : CodeUnit} {i : Instruction} {name : String} (hu : m.host.units[f.unit]? = some u)
      (hi : u.instructions[f.position]? = some i) (hop : i.opcode = .define)
      (hn : u.symbol? i.imm = some name) (hc : u.children[i.mode.toNat]? = none) :
      Misstep m f ("missing child unit for '" ++ name ++ "'")
  | target {u : CodeUnit} {i : Instruction} (hu : m.host.units[f.unit]? = some u)
      (hi : u.instructions[f.position]? = some i)
      (hop : i.opcode = .jump ∨ ∃ value, f.read? i.src1 = some value
        ∧ (i.opcode = .jumpIf ∧ value.isTruthy = true
          ∨ i.opcode = .jumpUnless ∧ value.isTruthy = false))
      (ht : i.imm < 0) :
      Misstep m f ("invalid jump target " ++ toString i.imm.toInt)

namespace Machine

variable {m : Machine} {f : Frame}

theorem fetch_of_instruction {u : CodeUnit} {i : Instruction} (hu : m.host.units[f.unit]? = some u)
    (hi : u.instructions[f.position]? = some i) :
    m.fetch f = (m.execute? f u i).getD { m with control := .stuck } := by
  simp only [fetch, hu, hi]

/-- A misstep raises a runtime error with its message. -/
theorem fetch_of_misstep {message : String} (h : m.Misstep f message) :
    ∃ backtrace, (m.fetch f).control
      = .raising { className := "RuntimeError", message, backtrace } := by
  cases h with
  | unit hu =>
    rw [fetch, hu]
    exact ⟨[], rfl⟩
  | symbol hu hi hop hn =>
    rw [fetch_of_instruction hu hi, execute?]
    split <;> simp_all only [Opcode.hasSymbolOperand, withSymbol, Bool.false_eq_true] <;>
      exact ⟨_, rfl⟩
  | arith hu hi hop hm =>
    rw [fetch_of_instruction hu hi, execute?, hop]
    dsimp only
    rw [hm]
    exact ⟨_, rfl⟩
  | window hu hi hop hn hw =>
    rw [fetch_of_instruction hu hi, execute?, hop]
    dsimp only
    rw [withSymbol, hn]
    dsimp only
    rw [hw]
    exact ⟨_, rfl⟩
  | child hu hi hop hn hc =>
    rw [fetch_of_instruction hu hi, execute?, hop]
    dsimp only
    rw [withSymbol, hn]
    dsimp only
    rw [hc]
    exact ⟨_, rfl⟩
  | @target u i hu hi hop ht =>
    have hjump : m.jump f i.imm = m.raiseIn f
        (.runtimeError ("invalid jump target " ++ toString i.imm.toInt)) := if_pos ht
    rw [fetch_of_instruction hu hi, execute?]
    rcases hop with hop | ⟨value, hread, ⟨hop, htruthy⟩ | ⟨hop, htruthy⟩⟩
    · rw [hop]
      dsimp only
      rw [hjump]
      exact ⟨_, rfl⟩
    · rw [hop]
      dsimp only
      rw [hread, Option.bind_eq_bind, Option.bind_some, if_pos htruthy, hjump]
      exact ⟨_, rfl⟩
    · rw [hop]
      dsimp only
      rw [hread, Option.bind_eq_bind, Option.bind_some, htruthy, if_neg Bool.false_ne_true, hjump]
      exact ⟨_, rfl⟩

/-- The next instruction of the frame raises what it finds in a register. -/
def Raises (m : Machine) (f : Frame) (message : String) : Prop :=
  ∃ i value, m.host.instruction? f = some i ∧ i.opcode = .raise ∧ f.read? i.src1 = some value
    ∧ message = value.text

theorem fetch_of_raises {message : String} (h : m.Raises f message) :
    ∃ backtrace, (m.fetch f).control
      = .raising { className := "RuntimeError", message, backtrace } := by
  obtain ⟨i, value, hi, hop, hread, rfl⟩ := h
  obtain ⟨u, hu, hi⟩ := Host.instruction?_eq_some_iff.1 hi
  rw [fetch_of_instruction hu hi, execute?, hop]
  dsimp only
  rw [hread]
  exact ⟨_, rfl⟩

/-- If the machine `m'` raises a runtime error, the frame of `m` has made a misstep or has been
asked to raise it. -/
def Blames (m : Machine) (f : Frame) (m' : Machine) : Prop :=
  ∀ e, m'.control = .raising e → e.className = "RuntimeError" →
    m.Misstep f e.message ∨ m.Raises f e.message

theorem blames_raiseIn {text : String} (h : m.Misstep f text ∨ m.Raises f text) :
    m.Blames f (m.raiseIn f (.runtimeError text)) := by
  intro e he _
  cases he
  exact h

/-- An exception of another class is no matter of blame. -/
theorem blames_of_className (className : String) {m' : Machine} {e : Exception}
    (he : m'.control = .raising e) (hclass : e.className = className)
    (hne : className ≠ "RuntimeError") : m.Blames f m' := by
  intro e' he' hruntime
  obtain rfl : e = e' := Control.raising.inj (he.symm.trans he')
  exact absurd (hclass.symm.trans hruntime) hne

theorem blames_enter (m' : Machine) (unit : Nat) (scope : Scope) (args : List Value)
    (receiver : Value) : m.Blames f (m'.enter unit scope args receiver) := by
  unfold enter
  split
  · exact blames_of_className "SystemStackError" rfl rfl (by decide)
  · exact nofun

theorem blames_failLoad (m' : Machine) (l : Load) (err : LoadError) :
    m.Blames f (m'.failLoad l err) := by
  intro e he
  rw [failLoad_eq] at he
  cases he

/-- No builtin raises a runtime error of its own: a load that fails at once is no exception yet. -/
theorem blames_callBuiltin (m' : Machine) (b : Builtin) (args : List Value) :
    m.Blames f (m'.callBuiltin b args) := by
  have hdispatch : ∀ (m' : Machine) (l : Load) (path : String),
      m.Blames f (m'.dispatch l path) := by
    intro m' l path
    generalize m'.dispatch l path = m'', dispatch_cases m' l path = hd
    cases hd with
    | failed => exact blames_failLoad _ _ _
    | compiles => exact blames_enter _ _ _ _ _
    | streamed hp hs =>
      cases hs with
      | failed => exact blames_failLoad _ _ _
      | entered => exact blames_enter _ _ _ _ _
  generalize m'.callBuiltin b args = m'', callBuiltin_cases m' b args = hc
  cases hc with
  | prints | adds | unresolved | known => exact nofun
  | loads | requires => exact hdispatch _ _ _
  | refuses he =>
    unfold nameArgument at he
    split at he
    · cases he
    · cases he
      exact blames_of_className "TypeError" rfl rfl (by decide)
    · cases he
      exact blames_of_className "ArgumentError" rfl rfl (by decide)

theorem blames_callByName (m' : Machine) (f' : Frame) (dest : UInt8) (name : String)
    (args : List Value) : m.Blames f (m'.callByName f' dest name args) := by
  unfold callByName
  cases m'.host.functions.get? name with
  | some unit => exact blames_enter _ _ _ _ _
  | none =>
    dsimp only
    cases m'.host.builtin? name with
    | some b => exact blames_callBuiltin _ b args
    | none => exact blames_of_className "NoMethodError" rfl rfl (by decide)

/-- The same of a machine that is there only if the registers are. -/
def BlamesAll (m : Machine) (f : Frame) (m? : Option Machine) : Prop :=
  ∀ m' ∈ m?, m.Blames f m'

theorem Blames.all {m' : Machine} (h : m.Blames f m') : m.BlamesAll f (some m') := by
  rintro _ ⟨⟩
  exact h

theorem blamesAll_assign? (m' : Machine) (dest : UInt8) (value : Value) :
    m.BlamesAll f (m'.assign? f dest value) := by
  intro m'' hm''
  obtain ⟨f', -, rfl⟩ := Option.map_eq_some_iff.1 hm''
  exact nofun

theorem blamesAll_read? (r : UInt8) {run : Value → Option Machine}
    (hrun : ∀ value, f.read? r = some value → m.BlamesAll f (run value)) :
    m.BlamesAll f ((f.read? r).bind run) := by
  intro m' hm'
  obtain ⟨value, hvalue, hm'⟩ := Option.bind_eq_some_iff.1 hm'
  exact hrun value hvalue m' hm'

section

variable {u : CodeUnit} {i : Instruction} (hu : m.host.units[f.unit]? = some u)
  (hi : u.instructions[f.position]? = some i)

include hu hi

theorem blamesAll_withSymbol (hop : i.opcode.hasSymbolOperand = true)
    {run : String → Option Machine}
    (hrun : ∀ name, u.symbol? i.imm = some name → m.BlamesAll f (run name)) :
    m.BlamesAll f (m.withSymbol f u i run) := by
  unfold withSymbol
  cases hn : u.symbol? i.imm with
  | some name => exact hrun name hn
  | none => exact (blames_raiseIn (Or.inl (.symbol hu hi hop hn))).all

theorem blames_jump (hop : i.opcode = .jump ∨ ∃ value, f.read? i.src1 = some value
    ∧ (i.opcode = .jumpIf ∧ value.isTruthy = true
      ∨ i.opcode = .jumpUnless ∧ value.isTruthy = false)) : m.Blames f (m.jump f i.imm) := by
  unfold jump
  split
  · exact blames_raiseIn (Or.inl (.target hu hi hop ‹_›))
  · exact nofun

/-- A runtime error that an instruction raises has one of the two reasons. -/
theorem blamesAll_execute? : m.BlamesAll f (m.execute? f u i) := by
  unfold execute?
  cases hop : i.opcode with
  | nop | halt => exact Blames.all nofun
  | loadInt | loadNil | loadBool | loadSelf => exact blamesAll_assign? m _ _
  | mov => exact blamesAll_read? i.src1 fun _ _ => blamesAll_assign? m _ _
  | ret => exact blamesAll_read? i.src1 fun _ _ => Blames.all nofun
  | raise =>
    refine blamesAll_read? i.src1 fun value hvalue => (blames_raiseIn (Or.inr ?_)).all
    exact ⟨i, value, Host.instruction?_eq_some_iff.2 ⟨u, hu, hi⟩, hop, hvalue, rfl⟩
  | loadStr =>
    exact blamesAll_withSymbol hu hi (by rw [hop]; rfl) fun _ _ => blamesAll_assign? _ _ _
  | getGlobal =>
    exact blamesAll_withSymbol hu hi (by rw [hop]; rfl) fun _ _ => blamesAll_assign? m _ _
  | setGlobal =>
    exact blamesAll_withSymbol hu hi (by rw [hop]; rfl) fun _ _ =>
      blamesAll_read? i.src1 fun _ _ => Blames.all nofun
  | arith =>
    dsimp only
    cases hm : ArithOp.ofCode? i.mode with
    | none => exact (blames_raiseIn (Or.inl (.arith hu hi hop hm))).all
    | some op =>
      refine blamesAll_read? i.src1 fun a _ => blamesAll_read? i.src2 fun b _ => ?_
      cases op.result? a b with
      | some value => exact blamesAll_assign? m _ _
      | none => exact (blames_of_className "TypeError" rfl rfl (by decide)).all
  | call =>
    refine blamesAll_withSymbol hu hi (by rw [hop]; rfl) fun name hn => ?_
    dsimp only
    cases hw : f.window? i.src1.toNat i.mode.toNat with
    | some args => exact (blames_callByName m f _ name args).all
    | none => exact (blames_raiseIn (Or.inl (.window hu hi hop hn hw))).all
  | define =>
    refine blamesAll_withSymbol hu hi (by rw [hop]; rfl) fun name hn => ?_
    cases hc : u.children[i.mode.toNat]? with
    | some offset => exact Blames.all nofun
    | none => exact (blames_raiseIn (Or.inl (.child hu hi hop hn hc))).all
  | jump => exact (blames_jump hu hi (Or.inl hop)).all
  | jumpIf =>
    refine blamesAll_read? i.src1 fun value hvalue => Blames.all ?_
    split
    · exact blames_jump hu hi (Or.inr ⟨value, hvalue, Or.inl ⟨hop, ‹_›⟩⟩)
    · exact nofun
  | jumpUnless =>
    refine blamesAll_read? i.src1 fun value hvalue => Blames.all ?_
    split
    · exact nofun
    · exact blames_jump hu hi (Or.inr ⟨value, hvalue, Or.inr ⟨hop, Bool.eq_false_iff.2 ‹_›⟩⟩)

end

theorem blames_fetch : m.Blames f (m.fetch f) := by
  unfold fetch
  cases hu : m.host.units[f.unit]? with
  | none =>
    intro e he _
    cases he
    exact Or.inl (.unit hu)
  | some u =>
    dsimp only
    cases hi : u.instructions[f.position]? with
    | none => exact nofun
    | some i =>
      dsimp only
      cases he : m.execute? f u i with
      | none => exact nofun
      | some m' => exact blamesAll_execute? hu hi m' he

/-- A step raises a runtime error for no other reasons than a misstep and an instruction that asks
for it. -/
theorem fetch_raises_iff {message : String} :
    (∃ backtrace, (m.fetch f).control
        = .raising { className := "RuntimeError", message, backtrace })
      ↔ m.Misstep f message ∨ m.Raises f message := by
  constructor
  · rintro ⟨backtrace, hraising⟩
    exact blames_fetch _ hraising rfl
  · rintro (hmisstep | hraises)
    · exact fetch_of_misstep hmisstep
    · exact fetch_of_raises hraises

end Machine

/-! ### Soundness -/

/-- The module at the path holds no bytecode, and its text is not too long. -/
structure World.LoadsSource (w : World) (path : String) : Prop where
  kind : ModuleKind.ofPath path ≠ .ok .compiled
  short : ∀ source, w.readText path = .ok source → Assembly.statementCount source < 0x80000000

structure Host.Sound (h : Host) : Prop where
  units : SoundTable h.units
  functions : ∀ name unit, h.functions.get? name = some unit → unit < h.units.length

/-- The frames that wait run units of the host `h`, down to a compilation; what waits below that is
sound with the host that waits there. -/
def SoundStack (h : Host) : List Activation → Prop
  | [] => True
  | .call f _ :: stack => f.unit < h.units.length ∧ SoundStack h stack
  | .load _ :: stack => SoundStack h stack
  | .compilation c :: stack => h.units ≠ [] ∧ c.outer.Sound ∧ SoundStack c.outer stack

structure Machine.Sound (m : Machine) : Prop where
  host : m.host.Sound
  stack : SoundStack m.host m.stack
  running : ∀ f, m.control = .running f → f.unit < m.host.units.length

namespace Host.Sound

variable {h h' : Host}

theorem of_tables (hs : h.Sound) (hunits : h'.units = h.units)
    (hfunctions : h'.functions = h.functions) : h'.Sound where
  units := hunits ▸ hs.units
  functions := by
    rw [hunits, hfunctions]
    exact hs.functions

theorem appendUnits (hs : h.Sound) {us : List CodeUnit} (hus : SoundTable us) :
    (h.appendUnits us).Sound where
  units := hs.units.append hus
  functions name unit hf := by
    show unit < (h.units ++ us).length
    rw [List.length_append]
    exact Nat.lt_of_lt_of_le (hs.functions name unit hf) (Nat.le_add_right _ _)

theorem defineFunction (hs : h.Sound) (name : String) {unit : Nat} (hu : unit < h.units.length) :
    (h.defineFunction name unit).Sound where
  units := hs.units
  functions name' unit' hf := by
    have hset : (h.functions.set name unit).get? name' = some unit' := hf
    rw [Bindings.get?_set] at hset
    split at hset
    · cases hset
      exact hu
    · exact hs.functions name' unit' hset

end Host.Sound

theorem SoundStack.mono {h h' : Host} {stack : List Activation} (hs : SoundStack h stack)
    (hle : h.units.length ≤ h'.units.length) : SoundStack h' stack := by
  induction stack with
  | nil => trivial
  | cons a stack ih =>
    cases a with
    | call f dest => exact ⟨Nat.lt_of_lt_of_le hs.1 hle, ih hs.2⟩
    | load l => exact ih hs
    | compilation c =>
      refine ⟨fun hnil => hs.1 ?_, hs.2⟩
      rw [hnil] at hle
      exact List.eq_nil_of_length_eq_zero (Nat.le_zero.1 hle)

namespace Machine

variable {m : Machine} {f : Frame}

/-- No frame of a sound machine makes a misstep. -/
theorem Sound.not_misstep (hm : m.Sound) (hf : m.control = .running f) (message : String) :
    ¬ m.Misstep f message := by
  have hlt := hm.running f hf
  intro hmis
  have hsound : ∀ {u : CodeUnit} {i : Instruction}, m.host.units[f.unit]? = some u →
      u.instructions[f.position]? = some i → i.SoundIn u := fun hu hi =>
    (hm.host.units _ _ hu).1 _ (List.mem_of_getElem? hi)
  cases hmis with
  | unit hu => exact absurd hlt (Nat.not_lt.2 (List.getElem?_eq_none_iff.1 hu))
  | symbol hu hi hop hn =>
    have hsome := (hsound hu hi).symbol hop
    rw [hn] at hsome
    cases hsome
  | arith hu hi hop hm =>
    have hsome := (hsound hu hi).arith hop
    rw [hm] at hsome
    cases hsome
  | window hu hi hop _ hw =>
    have hfits := (hsound hu hi).window hop
    rw [Frame.window?, if_pos hfits] at hw
    cases hw
  | child hu hi hop _ hc =>
    exact absurd ((hsound hu hi).child hop) (Nat.not_lt.2 (List.getElem?_eq_none_iff.1 hc))
  | @target u i hu hi hop ht =>
    have hjumps : i.opcode.jumps = true := by
      rcases hop with hop | ⟨_, _, ⟨hop, _⟩ | ⟨hop, _⟩⟩ <;> rw [hop] <;> rfl
    exact absurd ((hsound hu hi).target hjumps) (Int.not_le.2 (Int32.lt_iff_toInt_lt.1 ht))

/-! ### Loads keep machines sound -/

section Loading

variable (hh : m.host.Sound) (hs : SoundStack m.host m.stack)

include hh hs

theorem sound_enter {unit : Nat} (hu : unit < m.host.units.length) (scope : Scope)
    (args : List Value) (receiver : Value) : (m.enter unit scope args receiver).Sound := by
  unfold enter
  split
  · exact ⟨hh, hs, nofun⟩
  · refine ⟨hh.of_tables rfl rfl, hs.mono (Nat.le_refl _), fun f hf => ?_⟩
    cases hf
    exact hu

theorem sound_finishLoad (l : Load) : (m.finishLoad l).Sound := by
  rw [finishLoad_eq]
  exact ⟨hh.of_tables rfl rfl, hs.mono (Nat.le_refl _), nofun⟩

theorem sound_failLoad (l : Load) (e : LoadError) : (m.failLoad l e).Sound := by
  rw [failLoad_eq]
  exact ⟨hh.of_tables rfl rfl, hs.mono (Nat.le_refl _), nofun⟩

theorem sound_loadStream (l : Load) (path attribution : String)
    {stream : Except Bytecode.StreamFault (List UInt8)}
    (hread : ∀ us, Bytecode.readStream stream = .ok us → us ≠ [] ∧ SoundTable us) :
    (m.loadStream l path attribution stream).Sound := by
  cases hr : Bytecode.readStream stream with
  | error e =>
    rw [loadStream_of_error m l hr]
    have hhost : Host.Sound { m.host with pending := none } := hh.of_tables rfl rfl
    exact sound_failLoad (m := { m with host := { m.host with pending := none } }) hhost
      (hs.mono (Nat.le_refl _)) l _
  | ok us =>
    obtain ⟨hne, hsound⟩ := hread us hr
    have hpositive : 0 < us.length := List.length_pos_of_ne_nil hne
    have hlength : (CodeUnit.placed attribution us).length = us.length := by
      rw [CodeUnit.placed, List.length_modifyHead, List.length_map]
    rw [loadStream_of_ok m l hr]
    refine sound_enter ?_ ?_ ?_ _ _ _
    · have hhost : ((m.host.pushArena
          (us.flatMap fun u => u.symbols.map Value.str)).restoreArena l.arenaMark).Sound :=
        hh.of_tables rfl rfl
      exact hhost.appendUnits (hsound.placed attribution)
    · exact hs.mono (by
        show m.host.units.length ≤ (m.host.units ++ _).length
        rw [List.length_append]
        exact Nat.le_add_right _ _)
    · show m.host.units.length < (m.host.units ++ _).length
      rw [List.length_append, hlength]
      exact Nat.lt_add_of_pos_right hpositive

theorem sound_loadCompiledUnits (l : Load) (path : String) {us : List CodeUnit} (hne : us ≠ [])
    (hus : SoundTable us) : (m.loadCompiledUnits l path us).Sound := by
  unfold loadCompiledUnits
  cases l.artifact with
  | none => exact sound_failLoad hh hs l _
  | some a =>
    dsimp only
    cases hw : Bytecode.write? us with
    | none => exact sound_failLoad hh hs l _
    | some bytes =>
      dsimp only
      refine sound_loadStream (m := { m with world := m.world.writeArtifact a bytes }) hh hs l _ _ ?_
      intro vs hr
      -- what is read is what has been written
      have hbytes : Bytecode.read bytes = .ok vs := by
        cases hentry : (m.world.writeArtifact a bytes).files.entryAt? a.location with
        | none =>
          rw [hentry] at hr
          cases hr
        | some entry =>
          rw [hentry] at hr
          cases entry with
          | file contents =>
            have heq := FileTree.file_of_entryAt?_replace hentry
            rw [Entry.file.inj heq]
            exact hr
          | directory | link => cases hr
      exact hus.of_read hne hw hbytes

theorem sound_compileAndLoad (l : Load) (path : String) {source : String}
    (hfew : Assembly.statementCount source < 0x80000000) :
    (m.compileAndLoad l path source).Sound := by
  unfold compileAndLoad
  cases ha : Assembly.assemble source path with
  | error e => exact sound_failLoad hh hs l _
  | ok us =>
    obtain ⟨hne, hsound⟩ := soundTable_of_assemble ha hfew
    dsimp only
    split
    · have hisolated : m.host.isolated.Sound := ⟨SoundTable.nil, nofun⟩
      have hstack : SoundStack (m.host.isolated.appendUnits us)
          (.compilation { load := l, path, outer := m.host } :: m.stack) := ⟨hne, hh, hs⟩
      exact sound_enter (hisolated.appendUnits hsound) hstack (List.length_pos_of_ne_nil hne) _ _ _
    · exact sound_loadCompiledUnits hh hs l path hne hsound

theorem sound_dispatch (l : Load) {path : String} (hp : m.world.LoadsSource path) :
    (m.dispatch l path).Sound := by
  generalize m.dispatch l path = m', dispatch_handed m l path = hd
  cases hd with
  | fails hprepared =>
    rw [← hprepared.host, ← hprepared.stack] at hs
    rw [← hprepared.host] at hh
    exact sound_failLoad hh hs _ _
  | streams hkind => exact absurd hkind hp.kind
  | @compiles source a world hread =>
    exact sound_compileAndLoad (m := { m with world }) hh hs _ path (hp.short source hread)

end Loading

/-! ### Steps keep machines sound -/

def LoadsSources (m : Machine) : Prop :=
  ∀ f dest b name path, m.control = .running f → m.builtinCall? f = some (dest, b, [.str name]) →
    b = .load ∨ b = .require → m.world.resolve m.host.searchPath name = .ok path →
      m.world.LoadsSource path

theorem sound_callBuiltin (hh : m.host.Sound) (hs : SoundStack m.host m.stack) {b : Builtin}
    {args : List Value}
    (hp : ∀ name path, args = [.str name] → b = .load ∨ b = .require →
      m.world.resolve m.host.searchPath name = .ok path → m.world.LoadsSource path) :
    (m.callBuiltin b args).Sound := by
  generalize m.callBuiltin b args = m', callBuiltin_cases m b args = hc
  cases hc with
  | prints | adds => exact ⟨hh.of_tables rfl rfl, hs.mono (Nat.le_refl _), nofun⟩
  | refuses | unresolved | known => exact ⟨hh, hs, nofun⟩
  | @loads name path hr => exact sound_dispatch hh hs _ (hp name path rfl (Or.inl rfl) hr)
  | @requires name path hr =>
    exact sound_dispatch (m := m.mapLedger (·.markLoading path)) (hh.of_tables rfl rfl)
      (hs.mono (Nat.le_refl _)) _ (hp name path rfl (Or.inr rfl) hr)

theorem Effect.sound {u : CodeUnit} {h : Host} (he : Effect f u m.host h) (hh : m.host.Sound)
    (hu : m.host.units[f.unit]? = some u) : h.Sound ∧ h.units = m.host.units := by
  cases he with
  | none => exact ⟨hh, rfl⟩
  | string | global => exact ⟨hh.of_tables rfl rfl, rfl⟩
  | function name hc => exact ⟨hh.defineFunction name ((hh.units _ u hu).2 _ hc).2, rfl⟩

theorem Executed.sound {m' : Machine} (he : Executed m f m') (hm : m.Sound)
    (hf : f.unit < m.host.units.length) : m'.Sound := by
  obtain ⟨hh, hs, -⟩ := hm
  cases he with
  | goesOn hu heffect hunit =>
    obtain ⟨hhost, hunits⟩ := heffect.sound hh hu
    refine ⟨hhost, hs.mono (Nat.le_of_eq (congrArg List.length hunits.symm)), fun f'' hf'' => ?_⟩
    cases hf''
    rw [hunit, hunits]
    exact hf
  | returns | halts | raises | lost =>
    exact ⟨hh.of_tables rfl rfl, hs.mono (Nat.le_refl _), nofun⟩
  | calls dest args hget =>
    exact sound_enter (m := m.push (.call f dest)) hh ⟨hf, hs⟩ (hh.functions _ _ hget) _ _ _
  | stuck => exact ⟨hh, hs, nofun⟩

theorem Sound.fetch (hm : m.Sound) (hf : m.control = .running f) (hl : m.LoadsSources) :
    (m.fetch f).Sound := by
  have hlt := hm.running f hf
  cases hb : m.builtinCall? f with
  | none => exact (fetch_executed hb).sound hm hlt
  | some call =>
    obtain ⟨dest, b, args⟩ := call
    rw [fetch_of_builtinCall? hb]
    refine sound_callBuiltin (m := m.push (.call f dest)) hm.host ⟨hlt, hm.stack⟩ ?_
    rintro name path rfl hloads hresolve
    exact hl f dest b name path hf hb hloads hresolve

theorem sound_raiseTo (hh : m.host.Sound) {a : Activation} (hs : SoundStack m.host (a :: m.stack))
    (e : Exception) : (m.raiseTo e a).Sound := by
  cases a with
  | call f dest => exact ⟨hh.of_tables rfl rfl, hs.2.mono (Nat.le_refl _), nofun⟩
  | load l => exact sound_failLoad hh hs l _
  | compilation c => exact sound_failLoad (m := { m with host := c.outer }) hs.2.1 hs.2.2 c.load _

theorem sound_returnTo (hh : m.host.Sound) {a : Activation} (hs : SoundStack m.host (a :: m.stack))
    (value : Value) : (m.returnTo value a).Sound := by
  cases a with
  | load l => exact sound_finishLoad hh hs l
  | compilation c =>
    exact sound_loadCompiledUnits (m := { m with host := c.outer }) hs.2.1 hs.2.2 c.load c.path hs.1
      hh.units
  | call f dest =>
    show (m.resume f dest value).Sound
    unfold resume
    split
    · exact ⟨hh.of_tables rfl rfl, hs.2.mono (Nat.le_refl _), nofun⟩
    · unfold assign? Frame.write?
      split
      · refine ⟨hh, hs.2, fun f' hf' => ?_⟩
        cases hf'
        exact hs.1
      · exact ⟨hh, hs.2, nofun⟩

/-- A step that loads sources keeps a machine sound. -/
theorem Sound.step (hm : m.Sound) (hl : m.LoadsSources) : m.step.Sound := by
  obtain ⟨host, world, control, stack⟩ := m
  cases control with
  | running f => exact hm.fetch rfl hl
  | stuck => exact hm
  | returning value =>
    cases stack with
    | nil => exact hm
    | cons a stack =>
      exact sound_returnTo (m := { host, world, control := _, stack }) hm.host hm.stack value
  | raising e =>
    cases stack with
    | nil => exact hm
    | cons a stack =>
      exact sound_raiseTo (m := { host, world, control := _, stack }) hm.host hm.stack e
  | failing e =>
    cases stack with
    | nil => exact hm
    | cons a stack =>
      exact sound_raiseTo (m := { host, world, control := _, stack }) hm.host hm.stack e.toException

theorem Sound.run (hm : m.Sound) (hl : ∀ k, (m.run k).LoadsSources) (n : Nat) :
    (m.run n).Sound := by
  induction n with
  | zero => exact hm
  | succ n ih =>
    rw [run_succ']
    exact ih.step (hl n)

end Machine

end ModuleHost
