import AionDb.AuthAclSpec
import AionDb.BtreeRedoSpec
import AionDb.CatSequenceRun
import AionDb.EngineCommitSpec
import AionDb.EngineImplicitTxn
import AionDb.EvalTextOrder
import AionDb.ExecCacheSpec
import AionDb.ExecInSubquery
import AionDb.HaElectionSafety
import AionDb.HaKvCas
import AionDb.HaRaftCommit
import AionDb.HaRaftPersist
import AionDb.LsmLayoutSpec
import AionDb.NumericOrder
import AionDb.PoolModified
import AionDb.ShardLease
import AionDb.ShardOrSet
import AionDb.ShardPaging
import AionDb.ShardRangesAtomic
import AionDb.ShardSequence
import AionDb.StoreAutovacuum
import AionDb.StoreBatchSpec
import AionDb.StoreCheckpoint
import AionDb.StoreIndexBounds
import AionDb.StoreIndexOrder
import AionDb.StoreOverflowRows
import AionDb.StoreReplica
import AionDb.StoreRowLock
import AionDb.StoreSession
import AionDb.StoreTupleIds
import AionDb.TxClock
import AionDb.TxConflict
import AionDb.TxDeadlock
import AionDb.TxLockGrants
import AionDb.TxPessimistic
import AionDb.TxTimestampCache
import AionDb.TxTwoPhaseAbort
import AionDb.WalReplicationCopy
