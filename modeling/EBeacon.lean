import EBeacon.API.Status
import EBeacon.Cache.LinkedStore
import EBeacon.Cache.Lru
import EBeacon.Cache.Memory
import EBeacon.Cache.Redis
import EBeacon.Cache.RedisIsolation
import EBeacon.Cache.RedisSweep
import EBeacon.Config.Accepted
import EBeacon.Config.Failsafe
import EBeacon.Config.Validate
import EBeacon.DebugLog.Redaction
import EBeacon.Library.Checks
import EBeacon.Library.Chunks
import EBeacon.Library.Cleaning
import EBeacon.Library.Decimals
import EBeacon.Library.Election
import EBeacon.Library.Float64
import EBeacon.Library.Folding
import EBeacon.Library.Halting
import EBeacon.Library.Header
import EBeacon.Library.Interning
import EBeacon.Library.Leases
import EBeacon.Library.Maps
import EBeacon.Library.Marks
import EBeacon.Library.Metering
import EBeacon.Library.Padding
import EBeacon.Library.Process
import EBeacon.Library.Recency
import EBeacon.Library.Registers
import EBeacon.Library.Ring
import EBeacon.Library.Runs
import EBeacon.Library.Segments
import EBeacon.Library.Shares
import EBeacon.Library.Simulation
import EBeacon.Library.Sorting
import EBeacon.Library.Sweeping
import EBeacon.Library.Text
import EBeacon.Library.Threads
import EBeacon.Library.TokenBucket
import EBeacon.Library.URL
import EBeacon.Library.URLParse
import EBeacon.Library.Words
import EBeacon.Library.Xorshift
import EBeacon.Network.APIPath
import EBeacon.Network.Accept
import EBeacon.Network.ArchiveReach
import EBeacon.Network.AtMostOnce
import EBeacon.Network.BodilessReplies
import EBeacon.Network.Budgets
import EBeacon.Network.CacheKey
import EBeacon.Network.Candidates
import EBeacon.Network.Classifiers
import EBeacon.Network.CleanPath
import EBeacon.Network.ClientIP
import EBeacon.Network.Consensus
import EBeacon.Network.DedupCodec
import EBeacon.Network.Dispatch
import EBeacon.Network.Execute
import EBeacon.Network.FailureFree
import EBeacon.Network.Gates
import EBeacon.Network.Goroutines
import EBeacon.Network.HeadEvents
import EBeacon.Network.HeadWatcher
import EBeacon.Network.Healthz
import EBeacon.Network.HedgeOutcome
import EBeacon.Network.HedgeTurns
import EBeacon.Network.HistoryBounds
import EBeacon.Network.Invalidation
import EBeacon.Network.Isolation
import EBeacon.Network.KeyCodec
import EBeacon.Network.KeyReadings
import EBeacon.Network.Ledger
import EBeacon.Network.Matching
import EBeacon.Network.Negotiation
import EBeacon.Network.Overload
import EBeacon.Network.Ownership
import EBeacon.Network.PathMetrics
import EBeacon.Network.PathShapes
import EBeacon.Network.Paths
import EBeacon.Network.Permitted
import EBeacon.Network.PreferredFirst
import EBeacon.Network.Promotion
import EBeacon.Network.Rebalance
import EBeacon.Network.ReorgPurge
import EBeacon.Network.Responses
import EBeacon.Network.RetryDelay
import EBeacon.Network.Routing
import EBeacon.Network.SSE
import EBeacon.Network.SSEFraming
import EBeacon.Network.SSELines
import EBeacon.Network.SSETrace
import EBeacon.Network.SelectedOutcome
import EBeacon.Network.Sends
import EBeacon.Network.Server
import EBeacon.Network.ServerSteps
import EBeacon.Network.Session
import EBeacon.Network.SessionLimit
import EBeacon.Network.Settlement
import EBeacon.Network.SlotTTL
import EBeacon.Network.Startup
import EBeacon.Network.Traversal
import EBeacon.Network.Turns
import EBeacon.Network.UpstreamRequest
import EBeacon.Proxy.Auth
import EBeacon.Proxy.CORS
import EBeacon.Proxy.Credentials
import EBeacon.Proxy.Front
import EBeacon.Proxy.Prefixes
import EBeacon.Proxy.Quota
import EBeacon.Proxy.Routing
import EBeacon.State.Finality
import EBeacon.State.HeadGossip
import EBeacon.Upstream.AutoTuner
import EBeacon.Upstream.BlockCache
import EBeacon.Upstream.BlockCacheHead
import EBeacon.Upstream.BlockCacheInvariant
import EBeacon.Upstream.BlockCacheRun
import EBeacon.Upstream.BlockTally
import EBeacon.Upstream.Breaker
import EBeacon.Upstream.BreakerCounting
import EBeacon.Upstream.BreakerInvariant
import EBeacon.Upstream.BreakerRun
import EBeacon.Upstream.BreakerSafety
import EBeacon.Upstream.BreakerSteps
import EBeacon.Upstream.HeadOrder
import EBeacon.Upstream.HeadWindow
import EBeacon.Upstream.LoadBalancer
import EBeacon.Upstream.LocalHead
import EBeacon.Upstream.Monitor
import EBeacon.Upstream.OrderRNG
import EBeacon.Upstream.Plausibility
import EBeacon.Upstream.Pool
import EBeacon.Upstream.PoolHeads
import EBeacon.Upstream.RoundRobin
import EBeacon.Upstream.RouteScores
import EBeacon.Upstream.SanitizeError
import EBeacon.Upstream.ScoreRouting
import EBeacon.Upstream.ScoreTracker
import EBeacon.Upstream.Selection
import EBeacon.Upstream.WeightedOrder
