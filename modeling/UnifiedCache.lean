import UnifiedCache.HashSetRefinement
import UnifiedCache.Cache.TransBufferHandles
import UnifiedCache.Cache.Handles
import UnifiedCache.Posix.BlockCommit
import UnifiedCache.Cache.Steps
import UnifiedCache.Cache.Owners
import UnifiedCache.Cache.Jobs
import UnifiedCache.Cache.Pipeline
import UnifiedCache.Cache.Writers
import UnifiedCache.Cache.ReadyData
import UnifiedCache.Cache.Gather
import UnifiedCache.Cache.BufferManager
import UnifiedCache.Cache.DumpDelivery
import UnifiedCache.Cache.Completion
import UnifiedCache.Cache.LoadCopies
import UnifiedCache.Cache.LoadSound
import UnifiedCache.Nfs.Capacity
import UnifiedCache.Connector.BlockTables
import UnifiedCache.Connector.Coverage
import UnifiedCache.Connector.Worker
import UnifiedCache.Connector.Dispatch
import UnifiedCache.Connector.Schedule
import UnifiedCache.Connector.LoadErrors
import UnifiedCache.Connector.Transfers
import UnifiedCache.Connector.LayerTransfers
import UnifiedCache.Posix.ShardIo
import UnifiedCache.Connector.Layout
import UnifiedCache.Infra.SpscRingQueue
import UnifiedCache.Infra.IndexPool
import UnifiedCache.Lib.Shares
import UnifiedCache.Nfs.Processes
import UnifiedCache.Nfs.Admission
import UnifiedCache.Nfs.Ownership
import UnifiedCache.Pc.FileWorker
import UnifiedCache.Pc.Archive
import UnifiedCache.Pc.TransManager
import UnifiedCache.Pc.Completion
import UnifiedCache.HashSetRoom
import UnifiedCache.Pc.Places
import UnifiedCache.Pc.Watching
import UnifiedCache.Pc.StaleCopies
import UnifiedCache.Pc.ShareBuffer
import UnifiedCache.Pc.ReaderProtocol
import UnifiedCache.Posix.Lookup
import UnifiedCache.Posix.LookupResults
import UnifiedCache.Sparse.BlockHashes
import UnifiedCache.Connector.Blend
import UnifiedCache.Connector.BlendLoads
import UnifiedCache.Connector.BlendRuns
import UnifiedCache.Lib.CallHistory
import UnifiedCache.Nfs.SpaceProperty
import UnifiedCache.Nfs.SpaceRecycle
import UnifiedCache.Sparse.RetrieveTasks
import UnifiedCache.Sparse.EsaBlocks
import UnifiedCache.Sparse.LayerOffsets
import UnifiedCache.Nfs.DataIterator
import UnifiedCache.Sparse.TokenBlocks
import UnifiedCache.Sparse.EsaLayout
import UnifiedCache.Sparse.KvstarLayout
import UnifiedCache.Lib.InverseMaps
import UnifiedCache.Sparse.PrefetchEngine
import UnifiedCache.Sparse.PrefetchRun
import UnifiedCache.Sparse.PrefetchMaps
import UnifiedCache.Sparse.PrefetchLoads
import UnifiedCache.Lib.BoundedFifo
import UnifiedCache.Fake.MetaManager
import UnifiedCache.Fake.MetaFifo
import UnifiedCache.Cache.PrefixLookup
import UnifiedCache.Infra.TopNHeap
import UnifiedCache.Infra.TopNHeapOrder
import UnifiedCache.Lib.HeapOrder
import UnifiedCache.Ds3fs.TransQueue
import UnifiedCache.Ds3fs.RoundTrip
import UnifiedCache.SharedMetrics.Metrics
import UnifiedCache.SharedMetrics.Steps
import UnifiedCache.SharedMetrics.Conservation
import UnifiedCache.SharedMetrics.Reports
import UnifiedCache.SharedMetrics.Drain
import UnifiedCache.SharedMetrics.GaugeOrder
import UnifiedCache.Sparse.BlendMask
import UnifiedCache.Sparse.BlendRows
import UnifiedCache.Sparse.BlendReduction
import UnifiedCache.Sparse.BlendConsistent
import UnifiedCache.Sparse.BlendMeta
import UnifiedCache.Infra.ThreadPool
import UnifiedCache.Infra.ThreadPoolTasks
import UnifiedCache.Infra.ThreadPoolSupervision
import UnifiedCache.Infra.ThreadPoolTimeouts
import UnifiedCache.Sparse.CalKpreAndTopk
import UnifiedCache.Sparse.TopkPipelineRequests
import UnifiedCache.Sparse.TopkPipelineSteps
import UnifiedCache.Sparse.TopkPipelineRuns
import UnifiedCache.Sparse.TopkPipelineClosing
import UnifiedCache.Sparse.TopkHandshake
import UnifiedCache.Nfs.DoRecycle
import UnifiedCache.Pc.SlotTable
import UnifiedCache.Lib.HashChain
import UnifiedCache.Connector.PrefixIds
import UnifiedCache.Connector.Mock
import UnifiedCache.Detail.TaskSplit
import UnifiedCache.Posix.DataDirs
import UnifiedCache.Lib.Rounding
import UnifiedCache.Lib.Relocation
import UnifiedCache.Sparse.GsaConfig
import UnifiedCache.Sparse.GsaRelocation
import UnifiedCache.Sparse.GsaSlots
import UnifiedCache.Sparse.EsaResidency
import UnifiedCache.Sparse.KvstarQueries
import UnifiedCache.Sparse.EsaSchedule
import UnifiedCache.Sparse.HammingScore
import UnifiedCache.Lib.Selection
import UnifiedCache.Sparse.RetrievalBackend
import UnifiedCache.Sparse.TopkBlockSelector
import UnifiedCache.Sparse.HashPrefixCache
import UnifiedCache.Sparse.SimdRetrieve
import UnifiedCache.Sparse.KvstarDecode
import UnifiedCache.Sparse.KvstarSwapArea
import UnifiedCache.Infra.LogRotation
import UnifiedCache.Infra.Latch
import UnifiedCache.Lib.Stride
import UnifiedCache.Trans.CopyKernels
import UnifiedCache.Trans.CopyBatches
import UnifiedCache.Sparse.VectorProducts
import UnifiedCache.Sparse.BlockScores
import UnifiedCache.Cache.AllocWaits
import UnifiedCache.Cache.AllocFits
import UnifiedCache.Nfs.TransCompletion
import UnifiedCache.Lib.OnlineSoftmax
import UnifiedCache.Lib.GridStores
import UnifiedCache.Sparse.ReropeAttention
import UnifiedCache.Lib.InitOnce
import UnifiedCache.Detail.SharedObjects
import UnifiedCache.Lib.Ragged
import UnifiedCache.Integration.Scheduler
import UnifiedCache.Integration.SchedulePass
import UnifiedCache.Integration.ScheduleAdmission
import UnifiedCache.Integration.ScheduleBlocks
import UnifiedCache.Integration.ScheduleRuns
import UnifiedCache.Integration.Worker
import UnifiedCache.Integration.WorkerUpdate
import UnifiedCache.Integration.WorkerInputs
import UnifiedCache.Integration.WorkerRuns
