import ModuleHost.Config.File
import ModuleHost.Proofs.FileTree.Written
import ModuleHost.Proofs.Toml.Documents

/-!
# Configurations that have been saved

A configuration that has been saved is loaded as it was.  When settings are taken out of the saved
file, these have their defaults and the others are as they were (`load_saved`): a setting is read
from its own entry and from nothing else.
-/

namespace ModuleHost.LoaderConfig

open Toml

variable {c : LoaderConfig} {removed : List String} {files files' : FileTree} {cwd : Location}
  {path : String}

/-- The saved document when settings have been taken out of it. -/
def renderWithout (removed : List String) (c : LoaderConfig) : String :=
  writeHeader "loader"
    ++ String.join ((c.settings.filter (·.1 ∉ removed)).map fun s => writeEntry s.1 s.2)

/-- The configuration with the defaults of the settings that have been taken out. -/
def without (removed : List String) (c : LoaderConfig) : LoaderConfig :=
  let default : LoaderConfig := {}
  { envVar := if "env_var" ∈ removed then default.envVar else c.envVar
    searchPaths := if "search_paths" ∈ removed then default.searchPaths else c.searchPaths
    nativeEntrySymbol :=
      if "native_entry_symbol" ∈ removed then default.nativeEntrySymbol else c.nativeEntrySymbol
    tempPrefix := if "temp_prefix" ∈ removed then default.tempPrefix else c.tempPrefix
    tempDir := if "temp_dir" ∈ removed then default.tempDir else c.tempDir
    retryFailed := if "retry_failed" ∈ removed then default.retryFailed else c.retryFailed }

theorem renderWithout_nil (c : LoaderConfig) : c.renderWithout [] = c.render := by
  rw [renderWithout, render, List.filter_eq_self.2]
  intro setting _
  exact decide_eq_true List.not_mem_nil

theorem without_nil (c : LoaderConfig) : c.without [] = c := rfl

/-! ### The document -/

def nodes (c : LoaderConfig) : Entries :=
  [("env_var", .string c.envVar),
    ("search_paths", .array (c.searchPaths.map .string)),
    ("native_entry_symbol", .string c.nativeEntrySymbol),
    ("temp_prefix", .string c.tempPrefix)]
    ++ (c.tempDir.map fun dir => ("temp_dir", Node.string dir)).toList
    ++ [("retry_failed", .boolean c.retryFailed)]

def keys : List String :=
  ["env_var", "search_paths", "native_entry_symbol", "temp_prefix", "temp_dir", "retry_failed"]

theorem isBareKey_of_mem {key : String} (h : key ∈ keys) : IsBareKey key := by
  have hkeys : keys.all (fun key => !key.toList.isEmpty && key.toList.all isBareKeyChar) = true := by
    decide
  exact isBareKey_of_all (List.all_eq_true.1 hkeys key h)

theorem written {key value : String} {node : Node} (hkey : key ∈ keys) (hv : Reads value node) :
    Written (key, value) (key, node) := ⟨rfl, isBareKey_of_mem hkey, hv⟩

theorem written_settings (c : LoaderConfig) : List.Forall₂ Written c.settings c.nodes := by
  have hdir : List.Forall₂ Written
      (c.tempDir.map fun dir => ("temp_dir", writeString dir)).toList
      (c.tempDir.map fun dir => ("temp_dir", Node.string dir)).toList := by
    cases c.tempDir with
    | none => exact .nil
    | some dir => exact .cons (written (by decide) (reads_writeString dir)) .nil
  refine List.rel_append (List.rel_append ?_ hdir) ?_
  · exact .cons (written (by decide) (reads_writeString _))
      (.cons (written (by decide) (reads_writeStrings _))
        (.cons (written (by decide) (reads_writeString _))
          (.cons (written (by decide) (reads_writeString _)) .nil)))
  · exact .cons (written (by decide) (reads_writeBool _)) .nil

theorem map_fst_nodes (c : LoaderConfig) : (c.nodes.map Prod.fst).Sublist keys := by
  have hkeys : c.nodes.map Prod.fst
      = ["env_var", "search_paths", "native_entry_symbol", "temp_prefix"]
        ++ (c.tempDir.map fun _ => "temp_dir").toList ++ ["retry_failed"] := by
    unfold nodes
    cases c.tempDir <;> rfl
  rw [hkeys]
  cases c.tempDir with
  | none =>
    show List.Sublist ["env_var", "search_paths", "native_entry_symbol", "temp_prefix",
      "retry_failed"] keys
    decide
  | some _ => exact .refl _

/-- The settings that are left are read as the nodes that are left. -/
theorem read?_renderWithout (removed : List String) (c : LoaderConfig) :
    read? (c.renderWithout removed)
      = some [("loader", .table .header (c.nodes.filter (·.1 ∉ removed)))] := by
  refine read?_document (isBareKey_of_all (by decide)) ?_ ?_
  · refine List.rel_filter ?_ (written_settings c)
    intro setting entry hw
    simp only [hw.key]
  · have hkeys : keys.Nodup := by simp [keys]
    exact (hkeys.sublist c.map_fst_nodes).sublist (List.filter_sublist.map _)

theorem lookup_filter (entries : Entries) (removed : List String) (key : String) :
    (entries.filter (·.1 ∉ removed)).lookup key
      = if key ∈ removed then none else entries.lookup key := by
  induction entries with
  | nil => split <;> rfl
  | cons entry entries ih =>
    by_cases hentry : entry.1 ∈ removed
    · rw [List.filter_cons_of_neg (by simpa using hentry), ih]
      split
      · rfl
      · next hkey =>
        have hne : key ≠ entry.1 := fun h => hkey (h ▸ hentry)
        rw [List.lookup_cons, beq_false_of_ne hne]
    · rw [List.filter_cons_of_pos (by simpa using hentry), List.lookup_cons, List.lookup_cons, ih]
      by_cases hkey : key = entry.1
      · simp only [hkey, beq_self_eq_true, if_neg hentry]
      · simp only [beq_false_of_ne hkey]

/-! ### The configuration -/

theorem textsOf?_array (texts : List String) : textsOf? (.array (texts.map .string)) = some texts := by
  rw [textsOf?]
  induction texts with
  | nil => rfl
  | cons text texts ih =>
    rw [List.map_cons, List.mapM_cons, ih]
    rfl

/-- A setting that is left has its value, and one that has been taken out its default. -/
theorem settingOr_left {α : Type} {read? : Node → Option α} {default value : α} {node : Node}
    (h : read? node = some value) (key : String) (removed : List String) :
    settingOr read? default (if key ∈ removed then none else some node)
      = some (if key ∈ removed then default else value) := by
  split
  · rfl
  · exact h

/-- Every setting is read from its own entry. -/
theorem parse?_renderWithout (removed : List String) (c : LoaderConfig) :
    parse? (c.renderWithout removed) = some (c.without removed) := by
  have henv : c.nodes.lookup "env_var" = some (.string c.envVar) := rfl
  have hpaths : c.nodes.lookup "search_paths" = some (.array (c.searchPaths.map .string)) := rfl
  have hsymbol : c.nodes.lookup "native_entry_symbol" = some (.string c.nativeEntrySymbol) := rfl
  have hprefix : c.nodes.lookup "temp_prefix" = some (.string c.tempPrefix) := rfl
  have hretry : c.nodes.lookup "retry_failed" = some (.boolean c.retryFailed) := by
    unfold nodes
    cases c.tempDir <;> rfl
  have hdir : settingOr (fun node => (textOf? node).map some) none
      (if "temp_dir" ∈ removed then none else c.nodes.lookup "temp_dir")
        = some (if "temp_dir" ∈ removed then none else c.tempDir) := by
    unfold nodes
    cases c.tempDir with
    | none => split <;> rfl
    | some dir => exact settingOr_left (α := Option String) rfl _ _
  rw [parse?, read?_renderWithout]
  show ofSettings? (fun name _ => (c.nodes.filter (·.1 ∉ removed)).lookup name) = _
  simp only [ofSettings?, lookup_filter, henv, hpaths, hsymbol, hprefix, hretry, hdir]
  rw [settingOr_left (show textOf? _ = some c.envVar from rfl),
    settingOr_left (textsOf?_array c.searchPaths),
    settingOr_left (show textOf? _ = some c.nativeEntrySymbol from rfl),
    settingOr_left (show textOf? _ = some c.tempPrefix from rfl),
    settingOr_left (show boolOf? _ = some c.retryFailed from rfl)]
  rfl

theorem load_of_contentsOf {text : String} (h : files.contentsOf cwd path = .ok (Bytes.ofText text))
    (hparse : parse? text = some c) : load files cwd path = .ok c := by
  have hexists : files.pathExists cwd path = true := by
    unfold FileTree.contentsOf at h
    unfold FileTree.pathExists
    cases hopen : files.openEntry cwd path with
    | ok e => rfl
    | error e =>
      rw [hopen] at h
      cases h
  rw [load, hexists, h]
  dsimp only
  rw [Bytes.toText?_ofText, Bool.not_true, if_neg (by decide)]
  dsimp only
  rw [hparse]

/-- A configuration that has been saved is loaded as it was.  Where some of its settings have been
taken out of the saved document, these are loaded with their defaults and the others as they were;
and where the whole table has been taken out, everything has its default. -/
theorem load_saved (h : c.save files cwd path = .ok files') :
    load files' cwd path = .ok c
      ∧ ∀ (edited : FileTree) (cwd : Location) (path : String),
        (∀ removed, edited.contentsOf cwd path = .ok (Bytes.ofText (c.renderWithout removed)) →
          load edited cwd path = .ok (c.without removed))
        ∧ (edited.contentsOf cwd path = .ok (Bytes.ofText "") → load edited cwd path = .ok {}) := by
  refine ⟨load_of_contentsOf (FileTree.contentsOf_writeFile h) ?_, fun edited cwd path => ⟨?_, ?_⟩⟩
  · rw [← renderWithout_nil, parse?_renderWithout, without_nil]
  · intro removed hedited
    exact load_of_contentsOf hedited (parse?_renderWithout removed c)
  · intro hedited
    exact load_of_contentsOf hedited rfl

/-! ### Strings that need all kinds of quotes -/

def awkward : LoaderConfig where
  envVar := ""
  searchPaths := ["", "plain", "\"\"\"", "it's \"\"\n", "\\ ''' \r\n", "\x00\x7f"]
  tempPrefix := "\\\""
  tempDir := some "\n'\n"
  retryFailed := false

theorem save_awkward : awkward.save {} [] "/nlreq.toml"
    = .ok (.single "nlreq.toml" (Bytes.ofText awkward.render)) := by
  have hplace : FileTree.place {} .write [] "/nlreq.toml" = .ok (.vacant [] "nlreq.toml") := by
    rw [FileTree.place, if_neg (by decide), if_neg (by decide), if_neg (by decide),
      if_pos (by decide), show Path.pieces "/nlreq.toml" = ["", "nlreq.toml"] from rfl,
      FileTree.follow_idle rfl rfl, FileTree.follow_name rfl ⟨by decide, by decide, rfl, by decide⟩]
    rfl
  rw [save, FileTree.writeFile, hplace]
  rfl

theorem load_saved_awkward :
    (∃ files', awkward.save {} [] "/nlreq.toml" = .ok files'
        ∧ load files' [] "/nlreq.toml" = .ok awkward)
      ∧ load (.single "nlreq.toml" (Bytes.ofText (awkward.renderWithout ["env_var", "temp_dir"])))
          [] "/nlreq.toml" = .ok { awkward with envVar := "NLLIB", tempDir := none } := by
  obtain ⟨hsaved, hedited⟩ := load_saved save_awkward
  refine ⟨⟨_, save_awkward, hsaved⟩, ?_⟩
  have hname : Path.IsName "nlreq.toml" :=
    ⟨by decide, by decide, by decide, by decide, by decide⟩
  have hopen := FileTree.openEntry_single hname
    (Bytes.ofText (awkward.renderWithout ["env_var", "temp_dir"])) []
  refine (hedited _ [] "/nlreq.toml").1 ["env_var", "temp_dir"] ?_
  rw [FileTree.contentsOf, show "/nlreq.toml" = "/" ++ "nlreq.toml" from rfl, hopen]
  rfl

end ModuleHost.LoaderConfig
