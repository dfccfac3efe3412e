import ModuleHost.Config.Basic
import ModuleHost.Toml.Reader
import ModuleHost.Toml.Writer

/-!
# Configuration as a document

The settings stand in the table `loader`, each under its name.  A setting that is not there has its
default, and names that are no setting are left alone; so are other tables.  The settings may also
stand in an array, in the order in which they are written.
-/

namespace ModuleHost.LoaderConfig

open Toml

/-! ### Reading -/

def textOf? : Node → Option String
  | .string text => some text
  | _ => none

def boolOf? : Node → Option Bool
  | .boolean b => some b
  | _ => none

def textsOf? : Node → Option (List String)
  | .array nodes => nodes.mapM textOf?
  | _ => none

/-- The value of a setting: its default if the setting is not there. -/
def settingOr {α : Type} (read? : Node → Option α) (default : α) : Option Node → Option α
  | none => some default
  | some node => read? node

def ofSettings? (setting? : String → Nat → Option Node) : Option LoaderConfig := do
  let default : LoaderConfig := {}
  let envVar ← settingOr textOf? default.envVar (setting? "env_var" 0)
  let searchPaths ← settingOr textsOf? default.searchPaths (setting? "search_paths" 1)
  let nativeEntrySymbol ← settingOr textOf? default.nativeEntrySymbol
    (setting? "native_entry_symbol" 2)
  let tempPrefix ← settingOr textOf? default.tempPrefix (setting? "temp_prefix" 3)
  let tempDir ← settingOr (fun node => (textOf? node).map some) default.tempDir
    (setting? "temp_dir" 4)
  let retryFailed ← settingOr boolOf? default.retryFailed (setting? "retry_failed" 5)
  return { envVar, searchPaths, nativeEntrySymbol, tempPrefix, tempDir, retryFailed }

/-- The configuration in the table `loader`.  A point in time counts as a table without settings. -/
def ofNode? : Node → Option LoaderConfig
  | .table _ entries | .inlineTable entries => ofSettings? fun name _ => entries.lookup name
  | .array nodes => ofSettings? fun _ position => nodes[position]?
  | .datetime => some {}
  | _ => none

def parse? (text : String) : Option LoaderConfig := do
  match (← read? text).lookup "loader" with
  | some node => ofNode? node
  | none => some {}

/-! ### Writing -/

def settings (c : LoaderConfig) : List (String × String) :=
  [("env_var", writeString c.envVar),
    ("search_paths", writeStrings c.searchPaths),
    ("native_entry_symbol", writeString c.nativeEntrySymbol),
    ("temp_prefix", writeString c.tempPrefix)]
    ++ (c.tempDir.map fun dir => ("temp_dir", writeString dir)).toList
    ++ [("retry_failed", writeBool c.retryFailed)]

def render (c : LoaderConfig) : String :=
  writeHeader "loader" ++ String.join (c.settings.map fun s => writeEntry s.1 s.2)

end ModuleHost.LoaderConfig
