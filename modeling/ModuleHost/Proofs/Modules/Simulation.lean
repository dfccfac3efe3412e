import ModuleHost.Proofs.Machine.Calls
import ModuleHost.Proofs.Machine.LoadedSources
import ModuleHost.Proofs.Modules.Installation
import Mathlib.Data.List.Perm.Subperm

/-!
# Requiring a module of a graph

Where a graph of modules is installed, requiring a module runs the depth-first traversal of the
graph: the host prints the modules and puts them into the ledger in the order in which the traversal
finishes them.
-/

namespace ModuleHost

open Assembly (TextCall Coded)

variable {g : ModuleGraph} {config : LoaderConfig} {dir m : String} {l : Location} {w w₀ : World}
  {t t' : Traversal} {opens : List String} {units : List CodeUnit} {arena : List Value}

/-- The host when a traversal has come to `t` and the modules `opens` are being loaded. -/
def Host.during (config : LoaderConfig) (dir : String) (l : Location) (t : Traversal)
    (opens : List String) (units : List CodeUnit) (arena : List Value) : Host where
  units := units
  arena := arena
  depth := opens.length
  output := t.finished
  searchPath := { dirs := [dir] }
  ledger := {
    loaded := { entries := t.finished.map (modulePath l) }
    loading := { entries := opens.map (modulePath l) } }
  config := config

/-- What holds of the units and the world when a traversal has come to `t` and the modules `opens`
are being loaded. -/
structure Stage (g : ModuleGraph) (config : LoaderConfig) (l : Location) (w₀ : World)
    (t : Traversal) (opens : List String) (units : List CodeUnit) (w : World) : Prop where
  started : ∀ x, x ∈ t.started ↔ x ∈ t.finished ∨ x ∈ opens
  apart : ∀ x ∈ opens, x ∉ t.finished
  nodup : t.started.Nodup
  named : ∀ x ∈ t.started, x ∈ g.names
  filenames : units.map (·.filename) = t.started.map fun x => some (modulePath l x)
  available : Available config w₀ w
  numbers : w.nextArtifact ≤ w₀.nextArtifact + World.artifactAttempts * t.started.length

namespace Stage

theorem ledger_known (h : Stage g config l w₀ t opens units w) (hm : m ∈ t.started) :
    (Host.during config dir l t opens units arena).ledger.begin? (modulePath l m) = none := by
  rw [Ledger.begin?_eq_none_iff]
  exact ((h.started m).1 hm).imp (List.mem_map_of_mem) (List.mem_map_of_mem)

theorem ledger_fresh (h : Stage g config l w₀ t opens units w) (hm : m ∉ t.started) :
    (Host.during config dir l t opens units arena).ledger.begin? (modulePath l m)
      = some (Host.during config dir l t (opens ++ [m]) units arena).ledger := by
  have hnot : ∀ names : List String, (∀ x ∈ names, x ∈ t.started) →
      modulePath l m ∉ names.map (modulePath l) := by
    intro names hnames hmem
    obtain ⟨x, hx, hpath⟩ := List.mem_map.1 hmem
    exact hm (modulePath_inj hpath ▸ hnames x hx)
  have hloaded := hnot t.finished fun x hx => (h.started x).2 (Or.inl hx)
  have hloading := hnot opens fun x hx => (h.started x).2 (Or.inr hx)
  have hinsert : (PathSet.mk (opens.map (modulePath l))).insert (modulePath l m)
      = { entries := (opens ++ [m]).map (modulePath l) } := by
    have hentries := @PathSet.insert_of_notMem { entries := opens.map (modulePath l) }
      (modulePath l m) hloading
    rw [List.map_append, List.map_singleton, ← hentries]
  rw [Ledger.begin?_eq_some_iff, Ledger.state_eq_fresh_iff]
  refine ⟨⟨hloaded, hloading⟩, ?_⟩
  rw [Ledger.markLoading, Host.during, Host.during]
  dsimp only
  rw [hinsert]

/-- Finishing the module that was started last. -/
theorem ledger_completed (dir : String) (arena : List Value)
    (h : Stage g config l w₀ t (opens ++ [m]) units w) (hm : m ∉ opens) :
    (Host.during config dir l t (opens ++ [m]) units arena).ledger.completed (some (modulePath l m))
      = (Host.during config dir l (t.finish m) opens units arena).ledger := by
  have hpath : ∀ names : List String, m ∉ names → modulePath l m ∉ names.map (modulePath l) := by
    intro names hnames hmem
    obtain ⟨x, hx, heq⟩ := List.mem_map.1 hmem
    exact hnames (modulePath_inj heq ▸ hx)
  have hfinished : m ∉ t.finished :=
    h.apart m (List.mem_append_right _ (List.mem_singleton_self m))
  have herase : (PathSet.mk ((opens ++ [m]).map (modulePath l))).erase (modulePath l m)
      = { entries := opens.map (modulePath l) } := by
    have hentries := @PathSet.erase_of_eq_append
      { entries := (opens ++ [m]).map (modulePath l) } (opens.map (modulePath l)) (modulePath l m)
      (by rw [List.map_append, List.map_singleton]) (hpath opens hm)
    rw [← hentries]
  have hinsert : (PathSet.mk (t.finished.map (modulePath l))).insert (modulePath l m)
      = { entries := (t.finished ++ [m]).map (modulePath l) } := by
    have hentries := @PathSet.insert_of_notMem { entries := t.finished.map (modulePath l) }
      (modulePath l m) (hpath t.finished hfinished)
    rw [List.map_append, List.map_singleton, ← hentries]
  rw [Ledger.completed, Ledger.markLoaded, Host.during, Host.during]
  dsimp only
  rw [herase, hinsert, Traversal.finish]

theorem count_lt (h : Stage g config l w₀ t opens units w) (hm : m ∈ g.names)
    (hnew : m ∉ t.started) : t.started.length < g.names.length := by
  have hnodup : (m :: t.started).Nodup := List.nodup_cons.2 ⟨hnew, h.nodup⟩
  have hsub : m :: t.started ⊆ g.names := by
    intro x hx
    rcases List.mem_cons.1 hx with rfl | hx
    · exact hm
    · exact h.named x hx
  exact (hnodup.subperm hsub).length_le

/-- A module is started. -/
theorem start (h : Stage g config l w₀ t opens units w) (hm : m ∈ g.names) (hnew : m ∉ t.started)
    {v : CodeUnit} (hv : v.filename = some (modulePath l m)) {w' : World}
    (ha : Available config w₀ w')
    (hn : w'.nextArtifact ≤ w.nextArtifact + World.artifactAttempts) :
    Stage g config l w₀ (t.start m) (opens ++ [m]) (units ++ [v]) w' where
  started := by
    intro x
    rw [Traversal.start, List.mem_append, List.mem_append, h.started x, or_assoc]
  apart := by
    intro x hx
    rcases List.mem_append.1 hx with hx | hx
    · exact h.apart x hx
    · rw [List.mem_singleton.1 hx]
      exact fun hf => hnew ((h.started m).2 (Or.inl hf))
  nodup := by
    refine List.nodup_append.2 ⟨h.nodup, List.nodup_singleton m, ?_⟩
    rintro x hx y hy rfl
    exact hnew (List.mem_singleton.1 hy ▸ hx)
  named := by
    intro x hx
    rcases List.mem_append.1 hx with hx | hx
    · exact h.named x hx
    · exact List.mem_singleton.1 hx ▸ hm
  filenames := by
    rw [List.map_append, h.filenames, Traversal.start, List.map_append, List.map_singleton, hv,
      List.map_singleton]
  available := ha
  numbers := by
    have hnumbers := h.numbers
    rw [Traversal.start, List.length_append, List.length_singleton, Nat.mul_succ]
    omega

/-- The module that was started last is finished. -/
theorem finish (h : Stage g config l w₀ t (opens ++ [m]) units w) {w' : World}
    (ha : Available config w₀ w') (hn : w'.nextArtifact = w.nextArtifact) (hm : m ∉ opens) :
    Stage g config l w₀ (t.finish m) opens units w' where
  started := by
    intro x
    rw [Traversal.finish, List.mem_append, h.started x, List.mem_append, or_assoc,
      or_comm (a := x ∈ opens)]
  apart := by
    intro x hx hf
    rcases List.mem_append.1 hf with hf | hf
    · exact h.apart x (List.mem_append_left _ hx) hf
    · exact hm (List.mem_singleton.1 hf ▸ hx)
  nodup := h.nodup
  named := h.named
  filenames := h.filenames
  available := ha
  numbers := by
    rw [hn]
    exact h.numbers

end Stage

namespace Machine

variable {x : Machine}

theorem dispatch_source {path : String} (hkind : ModuleKind.ofPath path = .ok .source) (k : Load) :
    x.dispatch k path = x.loadSource k path := by
  rw [dispatch, hkind]

theorem enterTopLevel_of_lt (h : x.host.depth < Host.maxDepth) (unit : Nat) :
    x.enterTopLevel unit = { x with
      host := x.host.enterFrame
      control := .running (Frame.start unit .topLevel [] .main) } := by
  rw [enterTopLevel, enter, if_neg (Nat.not_le.2 h)]

/-- A module that has not been started is put into the table and entered. -/
theorem require_entered (hi : Installed g config dir l w₀)
    (hs : Stage g config l w₀ t opens units w) (hm : m ∈ g.names) (hnew : m ∉ t.started)
    (hdepth : opens.length < Host.maxDepth) (arena : List Value) (control : Control)
    (stack : List Activation) :
    ∃ (w' : World) (k : Load) (v : CodeUnit) (is : List Instruction),
      v.IsBody (modulePath l m) (g.calls m) is
        ∧ Stage g config l w₀ (t.start m) (opens ++ [m]) (units ++ [v]) w'
        ∧ k.arenaMark = arena.length ∧ k.key = some (modulePath l m)
        ∧ w.nextArtifact ≤ w'.nextArtifact
        ∧ (∀ n, ({ w' with nextArtifact := n } : World).discard k.artifact
            = { w with nextArtifact := n })
        ∧ ({ host := Host.during config dir l t opens units arena, world := w, control, stack } :
            Machine).require m
          = { host := Host.during config dir l (t.start m) (opens ++ [m]) (units ++ [v]) arena
              world := w'
              control := .running (Frame.start units.length .topLevel [] .main)
              stack := .load k :: stack } := by
  have hcount := hs.count_lt hm hnew
  have hnumbers := hs.numbers
  have hroom : w.nextArtifact < w₀.nextArtifact + World.artifactAttempts * g.names.length := by
    rw [World.artifactAttempts] at hnumbers ⊢
    omega
  obtain ⟨a, n, hle, hlt, hlast, hvacant, hcreate⟩ := hi.createArtifact hs.available hroom
  obtain ⟨source, hread, hcalls⟩ := hi.readText hm hs.available
  obtain ⟨u, bytes, v, is, hassemble, hwrite, hplaced, hbody⟩ :=
    body_of_makesCalls hcalls (hi.writable hm)
  have hslash : ∀ name ∈ l, '/' ∉ name.toList := fun name hn => (hi.directory.names name hn).noSlash
  have hmade := hs.available.made hle hlast hvacant bytes
  refine ⟨{ w with
      files := (w.files.insert a.location (.file [])).replace a.location (.file bytes)
      nextArtifact := n + 1 },
    { arenaMark := arena.length, artifact := some a, key := some (modulePath l m) }, v, is, hbody,
    hs.start hm hnew hbody.filename hmade hlt, rfl, rfl, Nat.le_succ_of_le hle, ?_, ?_⟩
  · intro c
    simp only [World.discard, World.removeArtifact, FileTree.erase_replace,
      FileTree.erase_insert hvacant]
  · let x : Machine := ⟨Host.during config dir l t opens units arena, w, control, stack⟩
    let x' : Machine := x.mapLedger fun _ =>
      (Host.during config dir l t (opens ++ [m]) units arena).ledger
    have hbegun : x.require m = x'.dispatch (x'.newLoad (some (modulePath l m))) (modulePath l m) :=
      require_begun (hi.resolve hm hs.available) (hs.ledger_fresh hnew)
    have hload := loadSource_of_ok (m := x') (l := x'.newLoad (some (modulePath l m))) hread hcreate
      hassemble rfl hwrite rfl
    show x.require m = _
    rw [hbegun, dispatch_source (ofPath_modulePath hslash hm), hload, hplaced, enterTopLevel_of_lt]
    · simp only [x', x, mapLedger, push, Host.during, Host.appendUnits, Host.enterFrame,
        Traversal.start, List.length_append, List.length_singleton, newLoad, World.writeArtifact]
    · exact hdepth

def RunsVisit (g : ModuleGraph) (config : LoaderConfig) (dir : String) (l : Location) (w₀ : World)
    (t t' : Traversal) (opens : List String) (units : List CodeUnit) (w : World) (m : String) :
    Prop :=
  ∀ (arena : List Value) (control : Control) (stack : List Activation), ∃ new n,
    w.nextArtifact ≤ n
      ∧ Stage g config l w₀ t' opens (units ++ new) { w with nextArtifact := n }
      ∧ (({ host := Host.during config dir l t opens units arena, world := w, control, stack } :
          Machine).require m).Arrives
        { host := Host.during config dir l t' opens (units ++ new) arena
          world := { w with nextArtifact := n }
          control := .returning (.bool (m ∉ t.started))
          stack }

/-- With room for `depth` more modules, requiring a module runs the visit of it. -/
def RunsVisits (g : ModuleGraph) (config : LoaderConfig) (dir : String) (l : Location)
    (w₀ : World) (depth : Nat) : Prop :=
  ∀ {t t' : Traversal} {opens : List String} {units : List CodeUnit} {w : World} {m : String},
    opens.length + depth = Host.maxDepth → Stage g config l w₀ t opens units w → m ∈ g.names →
    g.visit depth t m = some t' → RunsVisit g config dir l w₀ t t' opens units w m

/-- A frame goes through the requirements of its module. -/
theorem arrives_requires {depth : Nat} (hvisits : RunsVisits g config dir l w₀ depth)
    (hdepth : opens.length + depth = Host.maxDepth) (arena : List Value) (f : Frame)
    (stack : List Activation) {v : CodeUnit} {path : String} {calls : List TextCall}
    {code after is : List Instruction} {ds : List String} (hs : Stage g config l w₀ t opens units w)
    (hds : ∀ d ∈ ds, d ∈ g.names) (hu : units[f.unit]? = some v) (hv : v.IsBody path calls code)
    (hcode : v.instructions.drop f.position = is ++ after)
    (hcoded : Coded v.symbols (ds.map (TextCall.mk "require")) is)
    (hvisit : g.visitAll depth t ds = some t') :
    ∃ new n extra, ∃ f' : Frame, w.nextArtifact ≤ n ∧ f'.unit = f.unit
      ∧ f'.position = f.position + is.length
      ∧ Stage g config l w₀ t' opens (units ++ new) { w with nextArtifact := n }
      ∧ ({ host := Host.during config dir l t opens units arena, world := w
           control := .running f, stack } : Machine).Arrives
        { host := Host.during config dir l t' opens (units ++ new) (arena ++ extra)
          world := { w with nextArtifact := n }
          control := .running f'
          stack } := by
  induction ds generalizing t units arena w f is with
  | nil =>
    cases hvisit
    cases hcoded
    refine ⟨[], w.nextArtifact, [], f, Nat.le_refl _, rfl, rfl, ?_, ?_⟩
    · rw [List.append_nil]
      exact hs
    · rw [List.append_nil, List.append_nil]
      exact .refl _
  | cons d ds ih =>
    obtain ⟨t₁, hfirst, hrest⟩ := (ModuleGraph.visitAll_cons_eq_some_iff depth ds).1 hvisit
    cases hcoded with
    | @cons c calls' is r q i j hr hq hi hj hcoded =>
      obtain ⟨hload, hcall, hafter⟩ := getElem?_of_drop hcode
      have hbuiltin : (Host.during config dir l t opens units arena).builtin? "require"
          = some .require := rfl
      obtain ⟨f₁, hunit₁, hposition₁, harrives₁⟩ := arrives_builtin
        (h := Host.during config dir l t opens units arena) (w := w) (s := stack) hu hload hcall
        (hv.symbol?_ofNat hi) (hv.symbol?_ofNat hj) hr rfl hbuiltin
      obtain ⟨new₁, n₁, hn₁, hs₁, hrun⟩ := hvisits hdepth hs (hds d List.mem_cons_self) hfirst
        (arena ++ [.str d]) (.running f₁) (.call f₁ q :: stack)
      obtain ⟨f₂, hunit₂, hposition₂, harrives₂⟩ := arrives_behind
        (h := Host.during config dir l t₁ opens (units ++ new₁) (arena ++ [.str d]))
        (w := { w with nextArtifact := n₁ }) (f := f₁) (q := q) (s := stack)
        (.bool (d ∉ t.started)) rfl hq
      have hu₂ : (units ++ new₁)[f₂.unit]? = some v := by
        rw [hunit₂, hunit₁, List.getElem?_append_left (List.getElem?_eq_some_iff.1 hu).1, hu]
      have hcode₂ : v.instructions.drop f₂.position = is ++ after := by
        rw [hposition₂, hposition₁]
        exact hafter
      obtain ⟨new₂, n₂, extra, f₃, hn₂, hunit₃, hposition₃, hs₂, harrives₃⟩ :=
        ih (arena ++ [.str d]) f₂ hs₁ (fun d' hd' => hds d' (List.mem_cons_of_mem _ hd'))
          hu₂ hcode₂ hcoded hrest
      refine ⟨new₁ ++ new₂, n₂, [.str d] ++ extra, f₃, Nat.le_trans hn₁ hn₂, ?_, ?_, ?_, ?_⟩
      · rw [hunit₃, hunit₂, hunit₁]
      · rw [hposition₃, hposition₂, hposition₁, List.length_cons, List.length_cons]
        omega
      · rw [← List.append_assoc]
        exact hs₂
      · rw [← List.append_assoc, ← List.append_assoc]
        exact harrives₁.trans (hrun.trans (harrives₂.trans harrives₃))

/-- The load of a module ends when its name has been printed and its frame has returned. -/
theorem finishLoad_printed (dir : String) (extra : List Value) (control : Control)
    (stack : List Activation) {k : Load} (hs : Stage g config l w₀ t (opens ++ [m]) units w)
    (hm : m ∉ opens) (hmark : k.arenaMark = arena.length) (hkey : k.key = some (modulePath l m)) :
    ({ host := (((Host.during config dir l t (opens ++ [m]) units (arena ++ extra)).pushArena
          [.str m]).printLine m).leaveFrame
       world := w, control, stack } : Machine).finishLoad k
      = { host := Host.during config dir l (t.finish m) opens units arena
          world := w.discard k.artifact
          control := .returning (.bool true)
          stack } := by
  let host := Host.during config dir l t (opens ++ [m]) units (arena ++ extra)
  let printed := (host.pushArena [.str m]).printLine m
  have hledger : printed.leaveFrame.ledger.completed (some (modulePath l m))
      = (Host.during config dir l (t.finish m) opens units arena).ledger :=
    Stage.ledger_completed dir arena hs hm
  have harena : (arena ++ extra ++ [Value.str m]).take arena.length = arena := by
    rw [List.append_assoc, List.take_left]
  rw [finishLoad_eq, hkey, hmark, hledger]
  simp only [Host.during, Host.printLine, Host.pushArena, Host.leaveFrame, Host.restoreArena,
    harena, List.length_append, List.length_singleton, Nat.add_sub_cancel, Traversal.finish]

/-- A frame that has gone through the requirements of its module prints the name of the module and
returns, and the load ends. -/
theorem arrives_finished (dir : String) (extra : List Value) (stack : List Activation)
    {v : CodeUnit} {path : String} {calls : List TextCall} {code is : List Instruction} {f : Frame}
    {k : Load} (hs : Stage g config l w₀ t (opens ++ [m]) units w) (hm : m ∉ opens)
    (hu : units[f.unit]? = some v) (hv : v.IsBody path calls code)
    (hcode : v.instructions.drop f.position = is ++ [{ opcode := .loadNil }, { opcode := .ret }])
    (hcoded : Coded v.symbols [⟨"print", m⟩] is) (hmark : k.arenaMark = arena.length)
    (hkey : k.key = some (modulePath l m)) :
    ({ host := Host.during config dir l t (opens ++ [m]) units (arena ++ extra), world := w
       control := .running f, stack := .load k :: stack } : Machine).Arrives
      { host := Host.during config dir l (t.finish m) opens units arena
        world := w.discard k.artifact
        control := .returning (.bool true)
        stack } := by
  cases hcoded with
  | @cons _ _ is r q i j hr hq hi hj hcoded =>
    cases hcoded
    obtain ⟨hload, hcall, hafter⟩ := getElem?_of_drop hcode
    let host := Host.during config dir l t (opens ++ [m]) units (arena ++ extra)
    have hbuiltin : host.builtin? "print" = some .print := rfl
    obtain ⟨f₁, hunit₁, hposition₁, harrives₁⟩ := arrives_builtin (h := host) (w := w)
      (s := .load k :: stack) hu hload hcall (hv.symbol?_ofNat hi) (hv.symbol?_ofNat hj) hr rfl
      hbuiltin
    let printed := (host.pushArena [.str m]).printLine m
    have hprint : ({ host := host.pushArena [.str m], world := w, control := .running f₁
                     stack := .call f₁ q :: .load k :: stack } :
          Machine).callBuiltin .print [.str m]
        = { host := printed, world := w, control := .returning .nil
            stack := .call f₁ q :: .load k :: stack } := by
      simp only [callBuiltin, List.map_cons, List.map_nil, Value.text, String.intercalate_singleton,
        printed]
    obtain ⟨f₂, hunit₂, hposition₂, harrives₂⟩ := arrives_behind (h := printed) (w := w) (f := f₁)
      (q := q) (s := .load k :: stack) .nil rfl hq
    have hu₂ : printed.units[f₂.unit]? = some v := by
      rw [hunit₂, hunit₁]
      exact hu
    have hcode₂ : v.instructions.drop f₂.position
        = [{ opcode := .loadNil }, { opcode := .ret }] := by
      rw [hposition₂, hposition₁]
      exact hafter
    obtain ⟨hnil, hret, _⟩ := getElem?_of_drop hcode₂
    have hreturned := arrives_return (w := w) (s := .load k :: stack) hu₂ hnil hret
    have hfinished : ({ host := printed.leaveFrame, world := w, control := .returning .nil
                        stack := .load k :: stack } : Machine).step
        = { host := Host.during config dir l (t.finish m) opens units arena
            world := w.discard k.artifact
            control := .returning (.bool true)
            stack } := finishLoad_printed dir extra (.returning .nil) stack hs hm hmark hkey
    rw [hprint] at harrives₁
    refine harrives₁.trans (harrives₂.trans (hreturned.trans (Arrives.of_step ?_)))
    rw [hfinished]
    exact .refl _

/-- A module that has been started is not loaded again. -/
theorem runsVisit_started (hi : Installed g config dir l w₀)
    (hs : Stage g config l w₀ t opens units w) (hm : m ∈ g.names) (hstarted : m ∈ t.started) :
    RunsVisit g config dir l w₀ t t opens units w m := by
  intro arena control stack
  have hresolve : w.resolve (Host.during config dir l t opens units arena).searchPath m
      = .ok (modulePath l m) := hi.resolve hm hs.available
  have hrequire : ({ host := Host.during config dir l t opens units arena, world := w, control
                     stack } : Machine).require m
      = { host := Host.during config dir l t opens units arena
          world := w
          control := .returning (.bool false)
          stack } := by
    rw [require]
    dsimp only
    rw [hresolve]
    dsimp only
    rw [hs.ledger_known hstarted]
  refine ⟨[], w.nextArtifact, Nat.le_refl _, ?_, ?_⟩
  · rw [List.append_nil]
    exact hs
  · rw [hrequire, List.append_nil, decide_eq_false (not_not_intro hstarted)]
    exact .refl _

/-- A module that has not been started is loaded: what it requires is visited while it is open. -/
theorem runsVisit_fresh {depth : Nat} (hi : Installed g config dir l w₀)
    (hvisits : RunsVisits g config dir l w₀ depth)
    (hdepth : opens.length + (depth + 1) = Host.maxDepth)
    (hs : Stage g config l w₀ t opens units w) (hm : m ∈ g.names) (hnew : m ∉ t.started)
    (hall : g.visitAll depth (t.start m) (g.requires m) = some t') :
    RunsVisit g config dir l w₀ t (t'.finish m) opens units w m := by
  intro arena control stack
  have hopen : m ∉ opens := fun ho => hnew ((hs.started m).2 (Or.inr ho))
  obtain ⟨w', k, v, is, hbody, hs', hmark, hkey, hle, hdiscard, hrequire⟩ :=
    require_entered hi hs hm hnew (by omega) arena control stack
  obtain ⟨is₁, is₂, rfl, hcoded₁, hcoded₂⟩ := Assembly.Coded.split hbody.coded
  let f₀ := Frame.start units.length .topLevel [] .main
  have hu : (units ++ [v])[f₀.unit]? = some v := by
    show (units ++ [v])[units.length]? = some v
    rw [List.getElem?_append_right (Nat.le_refl _), Nat.sub_self]
    rfl
  have hcode : v.instructions.drop f₀.position
      = is₁ ++ (is₂ ++ [{ opcode := .loadNil }, { opcode := .ret }]) := by
    show v.instructions.drop 0 = _
    rw [List.drop_zero, hbody.instructions, List.append_assoc]
  have hdepth' : (opens ++ [m]).length + depth = Host.maxDepth := by
    rw [List.length_append, List.length_singleton]
    omega
  obtain ⟨new, n, extra, f, hn, hunit, hposition, hs₁, harrives₁⟩ :=
    arrives_requires hvisits hdepth' arena f₀ (.load k :: stack) hs' (g.closed m hm) hu hbody hcode
      hcoded₁ hall
  have hu₁ : (units ++ [v] ++ new)[f.unit]? = some v := by
    rw [hunit, List.getElem?_append_left (List.getElem?_eq_some_iff.1 hu).1]
    exact hu
  have hcode₁ : v.instructions.drop f.position
      = is₂ ++ [{ opcode := .loadNil }, { opcode := .ret }] := by
    rw [hposition, ← List.drop_drop, hcode, List.drop_left]
  have harrives₂ := arrives_finished dir extra stack hs₁ hopen hu₁ hbody hcode₁ hcoded₂ hmark hkey
  rw [hdiscard n] at harrives₂
  refine ⟨[v] ++ new, n, Nat.le_trans hle hn, ?_, ?_⟩
  · rw [← List.append_assoc]
    exact hs₁.finish (hs.available.advance (Nat.le_trans hle hn)) rfl hopen
  · rw [hrequire, decide_eq_true hnew, ← List.append_assoc]
    exact harrives₁.trans harrives₂

theorem runsVisits (hi : Installed g config dir l w₀) (depth : Nat) :
    RunsVisits g config dir l w₀ depth := by
  induction depth with
  | zero =>
    intro t t' opens units w m hdepth hs hm hvisit
    by_cases hstarted : m ∈ t.started
    · rw [ModuleGraph.visit_of_started 0 hstarted] at hvisit
      cases hvisit
      exact runsVisit_started hi hs hm hstarted
    · rw [ModuleGraph.visit_zero_of_notMem hstarted] at hvisit
      cases hvisit
  | succ depth ih =>
    intro t t' opens units w m hdepth hs hm hvisit
    by_cases hstarted : m ∈ t.started
    · rw [ModuleGraph.visit_of_started _ hstarted] at hvisit
      cases hvisit
      exact runsVisit_started hi hs hm hstarted
    · rw [ModuleGraph.visit_succ_of_notMem depth hstarted] at hvisit
      obtain ⟨t₁, hall, rfl⟩ := Option.map_eq_some_iff.1 hvisit
      exact runsVisit_fresh hi ih hdepth hs hm hstarted hall

end Machine

end ModuleHost
