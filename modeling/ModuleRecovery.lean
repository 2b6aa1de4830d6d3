import ModuleRecovery.Name
import ModuleRecovery.Table
import ModuleRecovery.Binary64
import ModuleRecovery.Numeral
import ModuleRecovery.Decimal
import ModuleRecovery.CallGraph
import ModuleRecovery.CallGraph.Samples
import ModuleRecovery.CouplingGraph
import ModuleRecovery.Coupling
import ModuleRecovery.Clusters
import ModuleRecovery.Linkage
import ModuleRecovery.Run
import ModuleRecovery.Run.Event
import ModuleRecovery.Json
import ModuleRecovery.Json.Printer
import ModuleRecovery.Json.Reader
import ModuleRecovery.Settings
import ModuleRecovery.Error
import ModuleRecovery.Analysis
import ModuleRecovery.Attempt
import ModuleRecovery.Listing
import ModuleRecovery.Dot
import ModuleRecovery.Json.Decode
import ModuleRecovery.Json.Graphs
import ModuleRecovery.Json.Outcome
import ModuleRecovery.Json.Report
import ModuleRecovery.Log
import ModuleRecovery.Toml
import ModuleRecovery.Toml.Scalar
import ModuleRecovery.Toml.Reader
import ModuleRecovery.Toml.Settings
import ModuleRecovery.Text
import ModuleRecovery.CommandLine.FileTree
import ModuleRecovery.CommandLine.Request
import ModuleRecovery.CommandLine.Arguments
import ModuleRecovery.CommandLine.Failure
import ModuleRecovery.CommandLine.Execution
import ModuleRecovery.CommandLine.Session
import ModuleRecovery.Main
import ModuleRecovery.Proofs.Clusters
import ModuleRecovery.Proofs.Linkage
import ModuleRecovery.Proofs.Run
import ModuleRecovery.Proofs.Components
import ModuleRecovery.Proofs.Stopping
import ModuleRecovery.Proofs.Trace
import ModuleRecovery.Proofs.Averages
import ModuleRecovery.Proofs.Budgets
import ModuleRecovery.Proofs.Rounding
import ModuleRecovery.Proofs.Decimals
import ModuleRecovery.Proofs.Prefixes
import ModuleRecovery.Proofs.CouplingGraphs
import ModuleRecovery.Proofs.Histories
import ModuleRecovery.Proofs.CallCounts
import ModuleRecovery.Proofs.Shares
import ModuleRecovery.Proofs.Events
import ModuleRecovery.Proofs.Unions
import ModuleRecovery.Proofs.Merges
import ModuleRecovery.Proofs.Conservation
import ModuleRecovery.Proofs.Attempts
import ModuleRecovery.Proofs.InnerWeights
import ModuleRecovery.Proofs.MergedCouplings
import ModuleRecovery.Proofs.Inversions
import ModuleRecovery.Proofs.AlikeGraphs
import ModuleRecovery.Proofs.Rejections
import ModuleRecovery.Proofs.Messages
import ModuleRecovery.Proofs.ExitCodes
import ModuleRecovery.Proofs.Renaming
import ModuleRecovery.Proofs.Ties
import ModuleRecovery.Proofs.Listeners
import ModuleRecovery.Proofs.Reports
import ModuleRecovery.Proofs.IsolatedClasses
import ModuleRecovery.Proofs.UnresolvedCalls
import ModuleRecovery.Proofs.Parameters
import ModuleRecovery.Proofs.InsertionOrder
import ModuleRecovery.Proofs.Json.Documents
import ModuleRecovery.Proofs.Json.Numbers
import ModuleRecovery.Proofs.Json.Values
import ModuleRecovery.Proofs.Json.CallGraphs
import ModuleRecovery.Proofs.Json.Reports
import ModuleRecovery.Proofs.Drawings
import ModuleRecovery.Proofs.Toml.Scalars
import ModuleRecovery.Proofs.Toml.Documents
import ModuleRecovery.Proofs.Toml.Settings
