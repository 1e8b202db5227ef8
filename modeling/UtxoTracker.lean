import UtxoTracker.Lib.KeyedStore
import UtxoTracker.Lib.Ledger
import UtxoTracker.Lib.Patch
import UtxoTracker.Lib.Transition
import UtxoTracker.Lib.Chunks
import UtxoTracker.Lib.MinHeap
import UtxoTracker.Lib.ExternalSort
import UtxoTracker.Lib.FixedPoint
import UtxoTracker.Lib.AntiJoin
import UtxoTracker.Lib.RecordBuffer
import UtxoTracker.Lib.MerkleTree
import UtxoTracker.Lib.Resumption
import UtxoTracker.Lib.HexText
import UtxoTracker.Lib.ByteString
import UtxoTracker.Chain.AuxPow
import UtxoTracker.Chain.MwebTransaction
import UtxoTracker.Store.Records
import UtxoTracker.Store.LevelUpStore
import UtxoTracker.Store.Outputs
import UtxoTracker.Store.Cleanup
import UtxoTracker.Store.Layout
import UtxoTracker.Store.Queries
import UtxoTracker.Tracker.State
import UtxoTracker.Tracker.AddressQueries
import UtxoTracker.Tracker.Window
import UtxoTracker.Tracker.Apply
import UtxoTracker.Tracker.Reorg
import UtxoTracker.Tracker.Reference
import UtxoTracker.Tracker.System
import UtxoTracker.Bulk.Parse
import UtxoTracker.Bulk.Derive
import UtxoTracker.Bulk.Load
import UtxoTracker.Bulk.Seeded
import UtxoTracker.Bulk.RecordFiles
import UtxoTracker.Bulk.MerkleRoot
import UtxoTracker.Proof.Chain
import UtxoTracker.Proof.Outputs
import UtxoTracker.Proof.FirstPass
import UtxoTracker.Proof.SecondPass
import UtxoTracker.Proof.Lookup
import UtxoTracker.Proof.Spend
import UtxoTracker.Proof.Stage
import UtxoTracker.Proof.StageBlock
import UtxoTracker.Proof.Index
import UtxoTracker.Proof.Unwind
import UtxoTracker.Proof.Scans
import UtxoTracker.Proof.Durable
import UtxoTracker.Proof.Rollback
import UtxoTracker.Proof.RollbackStep
import UtxoTracker.Proof.Prune
import UtxoTracker.Proof.Batch
import UtxoTracker.Proof.Walk
import UtxoTracker.Proof.WalkRun
import UtxoTracker.Proof.Invariant
import UtxoTracker.Proof.Steps
import UtxoTracker.Proof.Streams
import UtxoTracker.Proof.Rows
import UtxoTracker.Proof.Seed
import UtxoTracker.Proof.Start
import UtxoTracker.Proof.RecordFiles
import UtxoTracker.Concurrency.StoreCommitLock
import UtxoTracker.Concurrency.AddressReads
import UtxoTracker.Safety.CommitLock
import UtxoTracker.Safety.Paging
import UtxoTracker.Safety.AddressReads
import UtxoTracker.Safety.UtxoSet
import UtxoTracker.Safety.UndoWindow
import UtxoTracker.Safety.Rollback
import UtxoTracker.Proof.Growth
import UtxoTracker.Safety.BatchCuts
import UtxoTracker.Safety.BulkSync
import UtxoTracker.Concurrency.Caches
import UtxoTracker.Proof.Forget
import UtxoTracker.Proof.CacheHits
import UtxoTracker.Proof.CacheLoss
import UtxoTracker.Safety.Caches
import UtxoTracker.Safety.AuxPow
import UtxoTracker.Concurrency.Lifecycle
import UtxoTracker.Safety.Lifecycle
import UtxoTracker.Concurrency.MempoolReadiness
import UtxoTracker.Safety.MempoolReadiness
import UtxoTracker.Safety.RecordFiles
import UtxoTracker.Safety.MerkleRoot
import UtxoTracker.Safety.MwebTransaction
import UtxoTracker.Safety.SpendPaths
import UtxoTracker.Concurrency.TxLookup
import UtxoTracker.Safety.TxLookup
import UtxoTracker.Proof.Watermark
import UtxoTracker.Safety.UndoWatermark
import UtxoTracker.Safety.NodeTip
import UtxoTracker.Safety.BlockFetch
import UtxoTracker.Safety.RepeatedIds
import UtxoTracker.Safety.BatchRpc
import UtxoTracker.Lib.Fallible
import UtxoTracker.Safety.KeyCodec
import UtxoTracker.Safety.ValueCodec
import UtxoTracker.Safety.ConcurrencyGate
import UtxoTracker.Lib.BinarySearch
import UtxoTracker.Safety.MempoolDiff
import UtxoTracker.Safety.BalanceInfo
import UtxoTracker.Lib.RangeLoop
import UtxoTracker.Lib.Generator
import UtxoTracker.Safety.BlockDump
import UtxoTracker.Safety.ValidateChain
import UtxoTracker.Lib.Throwing
import UtxoTracker.Bulk.DatFiles
import UtxoTracker.Proof.DatFiles
import UtxoTracker.Safety.DatFiles
import UtxoTracker.Bulk.Writers
import UtxoTracker.Bulk.ConcatReuse
import UtxoTracker.Proof.Writers
import UtxoTracker.Proof.ConcatReuse
import UtxoTracker.Safety.ConcatReuse
import UtxoTracker.Bulk.MetaReader
import UtxoTracker.Proof.MetaReader
import UtxoTracker.Safety.MetaReader
import UtxoTracker.Bulk.BootHistory
import UtxoTracker.Proof.BootHistory
import UtxoTracker.Safety.BootGate
import UtxoTracker.Safety.ReorgSafety
import UtxoTracker.Safety.ReorgWalk
import UtxoTracker.Lib.FieldBytes
import UtxoTracker.Store.RawRows
import UtxoTracker.Safety.KeyOrder
import UtxoTracker.Proof.RawRows
import UtxoTracker.Safety.RawRows
import UtxoTracker.Tracker.MempoolStore
import UtxoTracker.Proof.MempoolStore
import UtxoTracker.Safety.MempoolStore
import UtxoTracker.Bulk.DumpRange
import UtxoTracker.Bulk.WorkDir
import UtxoTracker.Safety.SeedDepth
import UtxoTracker.Proof.WorkDir
import UtxoTracker.Safety.WorkDir
import UtxoTracker.Bulk.MergeDir
import UtxoTracker.Bulk.ResumedRun
import UtxoTracker.Proof.MergeDir
import UtxoTracker.Safety.ResumedRun
import UtxoTracker.Concurrency.ReadTokens
import UtxoTracker.Safety.ReadTokens
import UtxoTracker.Bulk.Orchestrator
import UtxoTracker.Proof.Orchestrator
import UtxoTracker.Safety.Orchestrator
