import InferenceServer.KVCache.Events
import InferenceServer.KVCache.CacheSalt
import InferenceServer.KVCache.RankAgreement
import InferenceServer.Sched.FinishReports
import InferenceServer.Sched.RemoteReceipt
import InferenceServer.Sched.Blocks
import InferenceServer.Sched.Assertions
import InferenceServer.Sched.SkipOrder
import InferenceServer.Sched.LoraSlots
import InferenceServer.Sched.WholeItems
import InferenceServer.Sched.RememberedHashes
import InferenceServer.Core.FinishNotices
import InferenceServer.DataParallel.WaveSafety
import InferenceServer.DataParallel.ClientRouting
import InferenceServer.Install.Resumption
import InferenceServer.MultiModal.KeyFaithfulness
import InferenceServer.MultiModal.CacheMirror
import InferenceServer.Serial.RoundTrip
import InferenceServer.Distributed.ExpertExchange
import InferenceServer.Distributed.BarrierSync
import InferenceServer.KVTransfer.TransferReports
import InferenceServer.KVTransfer.P2pSends
import InferenceServer.KVCache.EventPublisher
import InferenceServer.KVCache.ModelLength
import InferenceServer.Sched.PriorityQueue
import InferenceServer.V0.EvictionOrder
import InferenceServer.Worker.BatchReorder
import InferenceServer.Worker.GrammarRows
import InferenceServer.Worker.LocalAttention
import InferenceServer.Worker.AllowedMask
import InferenceServer.Worker.ContextChunks
import InferenceServer.Worker.LogitsTracking
import InferenceServer.Kernels.ScalarType
import InferenceServer.SpecDecode.NgramProposer
import InferenceServer.SpecDecode.AcceptedPrefix
import InferenceServer.Middleware.Usage
import InferenceServer.Middleware.Answers
import InferenceServer.Frontend.StreamedText
import InferenceServer.Frontend.StopGrouping
import InferenceServer.Frontend.RejectedRequests
import InferenceServer.Frontend.Merging
import InferenceServer.Frontend.Reasoning
import InferenceServer.Distributed.BroadcastTimeouts
import InferenceServer.Distributed.Placement
import InferenceServer.Worker.PinnedBatches
import InferenceServer.V0.AdapterLimit
import InferenceServer.KVCache.PrefixCachingMetrics
import InferenceServer.KVTransfer.P2pReceives
import InferenceServer.MultiModal.NestedEquality
