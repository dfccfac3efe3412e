import ModuleHost.Assembly.Program
import ModuleHost.Bytecode.Reader
import ModuleHost.Bytecode.Writer
import ModuleHost.CommandLine.Run
import ModuleHost.Config.File
import ModuleHost.Listing
import ModuleHost.Machine.Session
import ModuleHost.Main
import ModuleHost.Proofs.Assembly.Calls
import ModuleHost.Proofs.Assembly.Errors
import ModuleHost.Proofs.Assembly.Layout
import ModuleHost.Proofs.Assembly.Programs
import ModuleHost.Proofs.Assembly.StringLines
import ModuleHost.Proofs.Assembly.WellMade
import ModuleHost.Proofs.Bytecode.BitFields
import ModuleHost.Proofs.Bytecode.Instructions
import ModuleHost.Proofs.Bytecode.NormalForm
import ModuleHost.Proofs.Bytecode.RoundTrip
import ModuleHost.Proofs.Bytecode.SpareBits
import ModuleHost.Proofs.Bytecode.Unfinished
import ModuleHost.Proofs.CodeUnit.Edits
import ModuleHost.Proofs.CommandLine.SearchDirs
import ModuleHost.Proofs.Config.Nearest
import ModuleHost.Proofs.Config.RoundTrip
import ModuleHost.Proofs.FileTree.Following
import ModuleHost.Proofs.FileTree.Leads
import ModuleHost.Proofs.FileTree.Places
import ModuleHost.Proofs.FileTree.Written
import ModuleHost.Proofs.Ledger.Books
import ModuleHost.Proofs.Ledger.Histories
import ModuleHost.Proofs.Listing.Sources
import ModuleHost.Proofs.Loading.Availability
import ModuleHost.Proofs.Loading.Creation
import ModuleHost.Proofs.Loading.SearchOrder
import ModuleHost.Proofs.Loading.Spellings
import ModuleHost.Proofs.Machine.Arguments
import ModuleHost.Proofs.Machine.Calls
import ModuleHost.Proofs.Machine.Discipline
import ModuleHost.Proofs.Machine.Dispatched
import ModuleHost.Proofs.Machine.Executed
import ModuleHost.Proofs.Machine.Ledgers
import ModuleHost.Proofs.Machine.Lookups
import ModuleHost.Proofs.Machine.Outcome
import ModuleHost.Proofs.Machine.Registers
import ModuleHost.Proofs.Modules.Bodies
import ModuleHost.Proofs.Modules.Installation
import ModuleHost.Proofs.Modules.Simulation
import ModuleHost.Proofs.Modules.Traversal
import ModuleHost.Proofs.Session.Atomicity
import ModuleHost.Proofs.Session.Backtraces
import ModuleHost.Proofs.Session.DepthFirst
import ModuleHost.Proofs.Session.Dispatches
import ModuleHost.Proofs.Session.Finalization
import ModuleHost.Proofs.Session.Functions
import ModuleHost.Proofs.Session.Growth
import ModuleHost.Proofs.Session.Halting
import ModuleHost.Proofs.Session.Isolation
import ModuleHost.Proofs.Session.Kinds
import ModuleHost.Proofs.Session.Ledgers
import ModuleHost.Proofs.Session.Precompiled
import ModuleHost.Proofs.Session.Refinement
import ModuleHost.Proofs.Session.Refusals
import ModuleHost.Proofs.Session.Relocation
import ModuleHost.Proofs.Session.Restoration
import ModuleHost.Proofs.Session.Safety
import ModuleHost.Proofs.Session.Settlement
import ModuleHost.Proofs.Session.Spellings
import ModuleHost.Proofs.Session.TopLevelEnd
import ModuleHost.Proofs.Session.Untrusted
import ModuleHost.Proofs.Toml.Documents
import ModuleHost.Proofs.Toml.Strings
