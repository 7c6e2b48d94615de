import AcojWorker.Effect.Program
import AcojWorker.Judge.Scoring
import AcojWorker.Judge.BatchScoring
import AcojWorker.Judge.BatchClosure
import AcojWorker.Python.Text
import AcojWorker.Python.Utf8
import AcojWorker.Judge.Checker
import AcojWorker.Judge.OutputComparison
import AcojWorker.Judge.Sandbox
import AcojWorker.Judge.Inputs
import AcojWorker.Judge.Standard
import AcojWorker.Judge.Interactive
import AcojWorker.Judge.Orchestrator
import AcojWorker.Judge.InteractiveWait
import AcojWorker.Judge.CaseByCase
import AcojWorker.Judge.StandardVerdict
import AcojWorker.Effect.Lockstep
import AcojWorker.Judge.Tasks
import AcojWorker.Judge.PointValues
import AcojWorker.Judge.ValidatedInputs
import AcojWorker.Judge.StandardValidated
import AcojWorker.Judge.CaseByCaseValidated
import AcojWorker.Judge.PayloadAgreement
import AcojWorker.Effect.Interleaving
import AcojWorker.Cache.Disk
import AcojWorker.Cache.FileCache
import AcojWorker.Cache.Discipline
import AcojWorker.Cache.Knowledge
import AcojWorker.Cache.Eviction
import AcojWorker.Cache.Integrity
import AcojWorker.Effect.Sequential
import AcojWorker.Cache.Replay
import AcojWorker.Judge.StandardRuns
import AcojWorker.Judge.StandardResults
import AcojWorker.Judge.EarlyStop
import AcojWorker.Judge.ScoreMonotonicity
import AcojWorker.Judge.CaseNumbers
import AcojWorker.Judge.ResultProtocol
import AcojWorker.Judge.BatchNames
import AcojWorker.Effect.Trace
import AcojWorker.Judge.InteractiveResources
import AcojWorker.Cache.PathSharing
import AcojWorker.Effect.Invariant
import AcojWorker.Cache.Confinement
import AcojWorker.Cache.ConfinedRuns
import AcojWorker.Redis.SortedSet
import AcojWorker.Middleware.RateLimit
import AcojWorker.Security.PermissionRegistry
import AcojWorker.Security.PermissionCoverage
import AcojWorker.Effect.Schedule
import AcojWorker.Effect.Solo
import AcojWorker.Security.Session
import AcojWorker.Security.SessionSteps
import AcojWorker.Security.Logout
import AcojWorker.Security.IdleTimeout
import AcojWorker.Security.SessionIndex
import AcojWorker.Security.Transport
import AcojWorker.Judge.PointTotals
import AcojWorker.Judge.ModeAgreement
import AcojWorker.Cache.Steady
import AcojWorker.Cache.PlainKeys
import AcojWorker.Data.Quota
import AcojWorker.Cache.LruEviction
import AcojWorker.Cache.Revalidation
import AcojWorker.Data.DependencyOrder
import AcojWorker.Platform.ModuleOrder
import AcojWorker.Data.Climb
import AcojWorker.Judge.PoolMetrics
import AcojWorker.Platform.ConfigCrypto
import AcojWorker.Storage.Url
import AcojWorker.Judge.DecodedOutputs
import AcojWorker.Judge.LineEnds
import AcojWorker.Security.SessionExpiry
import AcojWorker.Security.SessionPruning
import AcojWorker.Cache.AtomicStore
import AcojWorker.Cache.Maintenance
import AcojWorker.Cache.Recency
import AcojWorker.Data.DigitalLine
import AcojWorker.Security.Captcha
import AcojWorker.Cache.RemoteStorage
import AcojWorker.Cache.Mirroring
import AcojWorker.Cache.Staleness
import AcojWorker.Cache.Progress
import AcojWorker.Platform.AuditQueue
import AcojWorker.Platform.AuditRecovery
import AcojWorker.Data.FileTree
import AcojWorker.Storage.Local
import AcojWorker.Storage.LocalObjects
import AcojWorker.Effect.History
import AcojWorker.Judge.TestData
import AcojWorker.Judge.Handles
import AcojWorker.Data.SlidingLog
import AcojWorker.Middleware.RateLimitDecision
import AcojWorker.Python.Numerals
import AcojWorker.Platform.DailyFile
import AcojWorker.Effect.Script
import AcojWorker.Platform.Lifespan
import AcojWorker.Data.Subscription
import AcojWorker.Platform.ConfigSync
