import Enclave.Activation.Activator
import Enclave.Activation.Document
import Enclave.Activation.Error
import Enclave.Activation.Machine
import Enclave.Activation.Request
import Enclave.Activation.Settings
import Enclave.Bytes
import Enclave.CommandLine.Arguments
import Enclave.CommandLine.Option
import Enclave.CommandLine.Parser
import Enclave.Context.Basic
import Enclave.Context.Use
import Enclave.Decimal.Fixed
import Enclave.Decimal.Shortest
import Enclave.Digest.Sha256
import Enclave.Dotenv
import Enclave.Duration
import Enclave.Environ
import Enclave.Event
import Enclave.Explanation
import Enclave.FileSystem.Basic
import Enclave.FileSystem.Operations
import Enclave.Fingerprint
import Enclave.IoError
import Enclave.Json.Basic
import Enclave.Json.Parser
import Enclave.Json.Printer
import Enclave.Json.Quoted
import Enclave.Layout
import Enclave.Lock.Build
import Enclave.Lock.Mode
import Enclave.Main
import Enclave.Name
import Enclave.Path
import Enclave.Procedure
import Enclave.Process.Child
import Enclave.Process.Command
import Enclave.Process.Outcome
import Enclave.Program.Activate
import Enclave.Program.Basic
import Enclave.Program.Environments
import Enclave.Program.Start
import Enclave.Proofs.Activation.Building
import Enclave.Proofs.Activation.Calls
import Enclave.Proofs.Activation.Containment
import Enclave.Proofs.Activation.Contract
import Enclave.Proofs.Activation.Creation
import Enclave.Proofs.Activation.Deactivation
import Enclave.Proofs.Activation.Evaluation
import Enclave.Proofs.Activation.Histories
import Enclave.Proofs.Activation.Levels
import Enclave.Proofs.Activation.Locations
import Enclave.Proofs.Activation.Locking
import Enclave.Proofs.Activation.Outcomes
import Enclave.Proofs.Activation.Precedence
import Enclave.Proofs.Activation.Records
import Enclave.Proofs.Activation.Reuse
import Enclave.Proofs.Activation.Runs
import Enclave.Proofs.Activation.Soundness
import Enclave.Proofs.Activation.States
import Enclave.Proofs.Activation.Surroundings
import Enclave.Proofs.Activation.Thinning
import Enclave.Proofs.Activation.Traces
import Enclave.Proofs.Activation.Usability
import Enclave.Proofs.Activation.Verdicts
import Enclave.Proofs.Activation.Ways
import Enclave.Proofs.Bytes
import Enclave.Proofs.CommandLine.Levels
import Enclave.Proofs.CommandLine.Variables
import Enclave.Proofs.Context.Application
import Enclave.Proofs.Context.Interleaving
import Enclave.Proofs.Context.Snapshot
import Enclave.Proofs.Context.Statements
import Enclave.Proofs.Context.Undo
import Enclave.Proofs.Dotenv.Extending
import Enclave.Proofs.Dotenv.Loading
import Enclave.Proofs.Dotenv.Reading
import Enclave.Proofs.Dotenv.RoundTrip
import Enclave.Proofs.Environ
import Enclave.Proofs.Environment.Builds
import Enclave.Proofs.Environment.Order
import Enclave.Proofs.Environment.Records
import Enclave.Proofs.Environment.Stores
import Enclave.Proofs.Environment.Truncation
import Enclave.Proofs.Events
import Enclave.Proofs.FileSystem.Ancestors
import Enclave.Proofs.FileSystem.Changes
import Enclave.Proofs.FileSystem.Directories
import Enclave.Proofs.FileSystem.Entries
import Enclave.Proofs.FileSystem.Paths
import Enclave.Proofs.FileSystem.Removals
import Enclave.Proofs.FileSystem.Resolution
import Enclave.Proofs.FileSystem.Walks
import Enclave.Proofs.Fingerprint
import Enclave.Proofs.Json.RoundTrip
import Enclave.Proofs.Json.Truncation
import Enclave.Proofs.Lock.Attempts
import Enclave.Proofs.Lock.Paths
import Enclave.Proofs.Lock.Rounds
import Enclave.Proofs.Lock.Waiting
import Enclave.Proofs.Procedure
import Enclave.Proofs.Program.Actions
import Enclave.Proofs.Program.Cleaning
import Enclave.Proofs.Program.Finding
import Enclave.Proofs.Program.Listing
import Enclave.Proofs.Program.Removal
import Enclave.Proofs.Program.Settings
import Enclave.Proofs.Provision.Budget
import Enclave.Proofs.Provision.Failures
import Enclave.Proofs.Provision.Packages
import Enclave.Proofs.Provision.Tasks
import Enclave.Proofs.Provision.Traces
import Enclave.Proofs.Record
import Enclave.Proofs.Requirements.Discovery
import Enclave.Proofs.Requirements.Lines
import Enclave.Proofs.Requirements.Loading
import Enclave.Proofs.Settings.Lookup
import Enclave.Proofs.Shell.Reading
import Enclave.Proofs.Shell.Running
import Enclave.Proofs.Table
import Enclave.Proofs.Text
import Enclave.Proofs.Time.RoundTrip
import Enclave.Proofs.Trace
import Enclave.Proofs.World
import Enclave.Provision.Plan
import Enclave.Provision.Scripted
import Enclave.Provision.System
import Enclave.Provision.Venv
import Enclave.Provision.Versions
import Enclave.Record
import Enclave.Report.Filter
import Enclave.Report.Line
import Enclave.Requirements
import Enclave.Settings.Environment
import Enclave.Settings.Lookup
import Enclave.Settings.Reporting
import Enclave.Shell.Arithmetic
import Enclave.Shell.Builtins
import Enclave.Shell.Command
import Enclave.Shell.Evaluate
import Enclave.Shell.Executable
import Enclave.Shell.Expansion
import Enclave.Shell.Parser
import Enclave.Shell.Pattern
import Enclave.Shell.Process
import Enclave.Shell.Programs
import Enclave.Size
import Enclave.Table
import Enclave.Text.Blank
import Enclave.Text.CaseTable
import Enclave.Text.Lines
import Enclave.Text.LowerCase
import Enclave.Text.Number
import Enclave.Time.Date
import Enclave.Time.Instant
import Enclave.Time.Stamp
import Enclave.World
import Enclave.World.Image
