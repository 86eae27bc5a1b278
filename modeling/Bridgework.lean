import Bridgework.Analysis.Batch
import Bridgework.Analysis.Client
import Bridgework.Analysis.Job
import Bridgework.Analysis.Stage
import Bridgework.Binary64.Basic
import Bridgework.Binary64.Shortest
import Bridgework.Bridge
import Bridgework.CallGraph.Disassembly
import Bridgework.CallGraph.Interpreted
import Bridgework.CallGraph.Native
import Bridgework.Collection.SortedMap
import Bridgework.Collection.SortedSet
import Bridgework.Command.Analyzer
import Bridgework.Command.Template
import Bridgework.Digest
import Bridgework.Error
import Bridgework.Heap.Callable
import Bridgework.Heap.Shape
import Bridgework.Heap.Snapshot
import Bridgework.Image.Mapped
import Bridgework.Image.MatchMode
import Bridgework.Image.MemoryMap
import Bridgework.Image.Resolver
import Bridgework.Install.ModuleName
import Bridgework.Install.Tree
import Bridgework.Json.Basic
import Bridgework.Json.Decode
import Bridgework.Json.Printer
import Bridgework.Json.Reader
import Bridgework.Limits
import Bridgework.Memo.Key
import Bridgework.Memo.Protocol
import Bridgework.Memo.Schema
import Bridgework.Memo.Store
import Bridgework.Memo.Table
import Bridgework.Package
import Bridgework.Path
import Bridgework.Proofs.Analysis.Answers
import Bridgework.Proofs.Analysis.Attempt
import Bridgework.Proofs.Analysis.Batch
import Bridgework.Proofs.Analysis.Codec
import Bridgework.Proofs.Analysis.Context
import Bridgework.Proofs.Analysis.Run
import Bridgework.Proofs.Analysis.SharedCache
import Bridgework.Proofs.Analysis.Stage
import Bridgework.Proofs.Binary64.Rounding
import Bridgework.Proofs.CallGraph.Build
import Bridgework.Proofs.CallGraph.Consistent
import Bridgework.Proofs.CallGraph.Disassembly
import Bridgework.Proofs.Collection.Increasing
import Bridgework.Proofs.Command.Template
import Bridgework.Proofs.Heap.Delegation
import Bridgework.Proofs.Heap.Renaming
import Bridgework.Proofs.Heap.Replay
import Bridgework.Proofs.Image.Listing
import Bridgework.Proofs.Image.LoadRange
import Bridgework.Proofs.Image.MemoryMap
import Bridgework.Proofs.Image.Offset
import Bridgework.Proofs.Image.Resolver
import Bridgework.Proofs.Install.ModuleName
import Bridgework.Proofs.Install.SharedObject
import Bridgework.Proofs.Json.Settled
import Bridgework.Proofs.Memo.Call
import Bridgework.Proofs.Memo.Consistent
import Bridgework.Proofs.Memo.Counters
import Bridgework.Proofs.Memo.Exclusion
import Bridgework.Proofs.Memo.Failure
import Bridgework.Proofs.Memo.Flight
import Bridgework.Proofs.Memo.Lease
import Bridgework.Proofs.Memo.Row
import Bridgework.Proofs.Memo.Schema
import Bridgework.Proofs.Memo.Step
import Bridgework.Proofs.Memo.Table
import Bridgework.Proofs.Memo.Takeover
import Bridgework.Proofs.Package
import Bridgework.Proofs.Path
import Bridgework.Proofs.Path.Below
import Bridgework.Proofs.Path.Names
import Bridgework.Proofs.Reach.Agreement
import Bridgework.Proofs.Reach.Centrality
import Bridgework.Proofs.Reach.Chain
import Bridgework.Proofs.Reach.Impact
import Bridgework.Proofs.Reach.Index
import Bridgework.Proofs.Reach.Laws
import Bridgework.Proofs.Reach.Reached
import Bridgework.Proofs.Reach.Shortest
import Bridgework.Proofs.Reach.Targets
import Bridgework.Proofs.Scan.Complete
import Bridgework.Proofs.Scan.Names
import Bridgework.Proofs.Scan.NoLibrary
import Bridgework.Proofs.Scan.Path
import Bridgework.Proofs.Scan.Renaming
import Bridgework.Proofs.Scan.Sound
import Bridgework.Proofs.Scan.Tally
import Bridgework.Proofs.Scan.Turns
import Bridgework.Proofs.Scan.Walk
import Bridgework.Proofs.Search.Alike
import Bridgework.Proofs.Search.Closure
import Bridgework.Proofs.Search.Cut
import Bridgework.Proofs.Search.Least
import Bridgework.Proofs.Search.Shortest
import Bridgework.Proofs.Search.Simple
import Bridgework.Proofs.Search.Trail
import Bridgework.Proofs.Settings.Sources
import Bridgework.Proofs.Text.Dotted
import Bridgework.Proofs.Text.Part
import Bridgework.Proofs.Text.Slot
import Bridgework.Proofs.Toml.Document
import Bridgework.Proofs.Unified.Account
import Bridgework.Proofs.Unified.Graph
import Bridgework.Proofs.Unified.Indexed
import Bridgework.Proofs.Unified.Order
import Bridgework.Proofs.Unified.Removal
import Bridgework.Proofs.Unified.Stitch
import Bridgework.Reach.Centrality
import Bridgework.Reach.Chain
import Bridgework.Reach.Index
import Bridgework.Reach.Reached
import Bridgework.Scan.Recovery
import Bridgework.Scan.Walk
import Bridgework.Search.Closure
import Bridgework.Search.Shortest
import Bridgework.Search.Simple
import Bridgework.Search.Trail
import Bridgework.Settings.Basic
import Bridgework.Settings.Sources
import Bridgework.Text.Digit
import Bridgework.Text.Dotted
import Bridgework.Text.Lowercase
import Bridgework.Text.Part
import Bridgework.Text.Printable
import Bridgework.Text.Quoted
import Bridgework.Text.Whitespace
import Bridgework.Toml.Basic
import Bridgework.Toml.Lexical
import Bridgework.Toml.Reader
import Bridgework.Unified.Graph
import Bridgework.Unified.Indexed
import Bridgework.Unified.Node
import Bridgework.Unified.Report
import Bridgework.Unified.Stitch
import Bridgework.Testbed.Collaborators
import Bridgework.Testbed.Import
import Bridgework.Testbed.LiveScan
import Bridgework.Testbed.Machine
import Bridgework.Testbed.Shell
import Bridgework.Testbed.Trial
