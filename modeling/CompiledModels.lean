import CompiledModels.Number.Reading
import CompiledModels.Digest
import CompiledModels.Text.Quoted
import CompiledModels.Text.Blank
import CompiledModels.Json.Typed
import CompiledModels.Json.Access
import CompiledModels.Machine.Program
import CompiledModels.Model
import CompiledModels.Module.Scripted
import CompiledModels.Module.Document
import CompiledModels.Shell.Syntax
import CompiledModels.Shell.Token
import CompiledModels.Shell.Parser
import CompiledModels.Shell.Pattern
import CompiledModels.Shell.State
import CompiledModels.Shell.Arithmetic
import CompiledModels.Shell.Condition
import CompiledModels.Shell.Redirect
import CompiledModels.Shell.Eval
import CompiledModels.Start
import CompiledModels.CommandLine.Arguments
import CompiledModels.CommandLine.Report
import CompiledModels.CommandLine.Run
import CompiledModels.Main
import CompiledModels.Proofs.Behaviour
import CompiledModels.Proofs.Courtesy
import CompiledModels.Proofs.Directories
import CompiledModels.Proofs.Exclusion
import CompiledModels.Proofs.History
import CompiledModels.Proofs.Clearing
import CompiledModels.Proofs.Overlap
import CompiledModels.Proofs.Snapshot
import CompiledModels.Proofs.Building
import CompiledModels.Proofs.Ends
import CompiledModels.Proofs.Rebuilding
import CompiledModels.Proofs.Stages
import CompiledModels.Proofs.DataText
import CompiledModels.Proofs.ManifestText
import CompiledModels.Proofs.Containment
import CompiledModels.Proofs.Crew
import CompiledModels.Proofs.Failure
import CompiledModels.Proofs.Compilation
import CompiledModels.Proofs.Crossing
import CompiledModels.Proofs.Deadline
import CompiledModels.Proofs.Translation
import CompiledModels.Proofs.Naming
import CompiledModels.Proofs.Handles
import CompiledModels.Proofs.Lifecycle
import CompiledModels.Proofs.Replacing
import CompiledModels.Proofs.Ledger
import CompiledModels.Proofs.Sizes
import CompiledModels.Proofs.Settings
import CompiledModels.Proofs.Commands
import CompiledModels.Proofs.Recognition
import CompiledModels.Proofs.Polling
import CompiledModels.Proofs.SingleBuild
import CompiledModels.Proofs.Stalls
import CompiledModels.Proofs.Drafts
import CompiledModels.Proofs.Upkeep
import CompiledModels.Proofs.Lookups
import CompiledModels.Proofs.Errands
import CompiledModels.Proofs.Currency
import CompiledModels.Proofs.Independence
