import LoopTable.Main
import LoopTable.Proofs.Resolution.Exact
import LoopTable.Proofs.Resolution.Pairing
import LoopTable.Proofs.Resolution.Interruption
import LoopTable.Proofs.Nesting.Measure
import LoopTable.Proofs.Resolution.Counting
import LoopTable.Proofs.Resolution.Agreement
import LoopTable.Proofs.Resolution.Replay
import LoopTable.Proofs.Resolution.Healing
import LoopTable.Proofs.Resolution.Polling
import LoopTable.Proofs.Resolution.Cancellation
import LoopTable.Proofs.Resolution.BranchTable
import LoopTable.Proofs.Resolution.Skeleton
import LoopTable.Proofs.Resolution.Composition
import LoopTable.Proofs.Resolution.Footprint
import LoopTable.Proofs.Memory.Selection
import LoopTable.Proofs.Analysis.Basic
import LoopTable.Proofs.Memory.Session
import LoopTable.Proofs.Analysis.Messages
import LoopTable.Proofs.Analysis.Layout
import LoopTable.Proofs.Storage.FileTree
import LoopTable.Proofs.Storage.Files
import LoopTable.Proofs.Nesting.Source
import LoopTable.Proofs.Storage.Pipeline
import LoopTable.Proofs.Command.FaultLines
import LoopTable.Proofs.Command.Spelling
import LoopTable.Proofs.Command.Operands
import LoopTable.Proofs.Command.Arguments
import LoopTable.Proofs.Command.Resolve
import LoopTable.Proofs.Analysis.Slots
import LoopTable.Proofs.Memory.Names
import LoopTable.Proofs.Progress
import LoopTable.Proofs.Resolution.Watching
import LoopTable.Proofs.Analysis.Commuting
import LoopTable.Proofs.Analysis.Finality
import LoopTable.Proofs.Memory.Split
import LoopTable.Proofs.Resolution.Bounds
import LoopTable.Proofs.Resolution.Protocol
import LoopTable.Proofs.Resolution.Faults
import LoopTable.Proofs.History
import LoopTable.Proofs.Memory.LastWrite
import LoopTable.Proofs.Resolution.Records
import LoopTable.Proofs.Analysis.Records
import LoopTable.Proofs.Progress.Families
import LoopTable.Proofs.Progress.Histories
import LoopTable.Proofs.Assembly
import LoopTable.Proofs.Memory.Words
import LoopTable.Proofs.Storage.Calls
import LoopTable.Proofs.Storage.Histories
import LoopTable.Proofs.Resolution.OpenLoops
