import SweGateway.Lib.Runs
import SweGateway.Api.Payment
import SweGateway.Core.Payment.Mock
import SweGateway.Core.Payment.Equiv.Step
import SweGateway.Core.Payment.Equiv.Lifecycle
import SweGateway.Core.Payment.Equiv.RefundStatus
import SweGateway.Core.Payment.Equiv.RefundCap
import SweGateway.Core.Payment.Equiv.ListPayments
import SweGateway.Core.Payment.Concurrent
import SweGateway.Core.Payment.Equiv.Deadlock
import SweGateway.Core.Payment.Equiv.Serial
import SweGateway.Core.Payment.Equiv.Linearizable
import SweGateway.Api.Middleware
import SweGateway.Core.Pipeline
import SweGateway.Core.Serving
import SweGateway.Core.MetricsBridge
import SweGateway.Core.Equiv.Pipeline
import SweGateway.Core.Equiv.MetricsBridge
import SweGateway.Core.Equiv.Serving
import SweGateway.Core.Equiv.RateLimited
import SweGateway.Api.Auth
import SweGateway.Core.AuthMiddleware
import SweGateway.Core.Equiv.AuthMiddleware
import SweGateway.Api.Json
import SweGateway.Core.Equiv.Retry
import SweGateway.Lib.LexicalPath
import SweGateway.Api.File
import SweGateway.Core.File.Local
import SweGateway.Core.File.Equiv.Sandbox
import SweGateway.Core.File.Concurrent
import SweGateway.Core.File.Equiv.Writers
import SweGateway.Lib.Overlay
import SweGateway.Core.File.Equiv.Overwriting
import SweGateway.Lib.TextLines
import SweGateway.Xtask.Index
import SweGateway.Xtask.Publish
import SweGateway.Lib.Kahn
import SweGateway.Lib.KeyedList
import SweGateway.Lib.Comparator
import SweGateway.Xtask.PublishOrder
import SweGateway.Xtask.Equiv.Index
import SweGateway.Xtask.Equiv.Publish
import SweGateway.Xtask.Equiv.PublishOrder
import SweGateway.Lib.JsonText
import SweGateway.Xtask.IndexJson
import SweGateway.Xtask.Equiv.IndexMap
import SweGateway.Api.Database
import SweGateway.Core.Database.Memory
import SweGateway.Core.Database.Equiv.KeyId
import SweGateway.Core.Database.Equiv.Selection
import SweGateway.Core.Database.Equiv.Ordering
import SweGateway.Core.Database.Concurrent
import SweGateway.Core.Database.Equiv.Linearizable
import SweGateway.Core.Database.Equiv.Inserts
import SweGateway.Lib.TokenBucket
import SweGateway.Core.RateLimit
import SweGateway.Core.Equiv.RateLimit
import SweGateway.Lib.Flow
import SweGateway.Lib.Linearizable
import SweGateway.Lib.TwoPhase
import SweGateway.State.CachedService
import SweGateway.State.Equiv.CachedService
import SweGateway.State.Equiv.Reset
import SweGateway.State.ConfiguredCache
import SweGateway.State.Equiv.ConfiguredCache
import SweGateway.Lib.TextReplace
import SweGateway.Lib.DirTree
import SweGateway.Lib.DirWalk
import SweGateway.Xtask.Manifest
import SweGateway.Xtask.Equiv.Manifest
import SweGateway.Xtask.Ws
import SweGateway.Xtask.Equiv.Ws
import SweGateway.Xtask.Sync
import SweGateway.Xtask.Equiv.Sync
import SweGateway.Lib.AssocList
import SweGateway.Lib.Serde
import SweGateway.Lib.Serde.Back
import SweGateway.Lib.Serde.Part
import SweGateway.Lib.TomlText
import SweGateway.Api.Http
import SweGateway.Api.Notification
import SweGateway.Saf.EnvVars
import SweGateway.Saf.Config
import SweGateway.Saf.Equiv.RoundTrip
import SweGateway.Saf.Equiv.Expand
import SweGateway.Saf.Equiv.Fields
import SweGateway.Saf.Equiv.NonInterference
import SweGateway.Saf.Load
import SweGateway.Saf.Equiv.Load
import SweGateway.Core.Database.Equiv.Writes
import SweGateway.Core.Equiv.Nested
import SweGateway.Core.Equiv.RetryLoop
import SweGateway.Core.Equiv.RetriedLimiter
import SweGateway.Core.Equiv.Backoff
import SweGateway.Lib.FirstOccurrence
import SweGateway.Saf.Equiv.Grammar
import SweGateway.Lib.StableSort
import SweGateway.Core.Database.Equiv.Query
import SweGateway.Core.Database.Equiv.Range
import SweGateway.Lib.Rounding
import SweGateway.Core.Database.Equiv.Numeric
import SweGateway.Lib.FoldedKeys
import SweGateway.Core.Http.Rest
import SweGateway.Core.Http.Equiv.Headers
import SweGateway.Lib.Utf8
import SweGateway.Core.Notification.Console
import SweGateway.Core.Notification.Equiv.Send
import SweGateway.Core.Notification.Equiv.DeliveryLog
import SweGateway.Lib.Places
import SweGateway.Saf.ExpandInPlace
import SweGateway.Saf.Equiv.InPlace
import SweGateway.Lib.PathPrefix
import SweGateway.Lib.PathParent
import SweGateway.Core.File.Equiv.Listing
import SweGateway.Core.File.Equiv.Copying
import SweGateway.Core.File.Equiv.Provenance
import SweGateway.Lib.OsPath
import SweGateway.Core.Output
import SweGateway.Core.Equiv.Output
import SweGateway.Xtask.Selection
import SweGateway.Xtask.Run
import SweGateway.Xtask.Equiv.Selection
import SweGateway.Xtask.Equiv.Run
import SweGateway.Xtask.Equiv.Republish
import SweGateway.Xtask.Registry
import SweGateway.Xtask.Equiv.Registry
import SweGateway.Lib.FileTree
import SweGateway.Xtask.Scan
import SweGateway.Xtask.Equiv.Scan
import SweGateway.Lib.Comments
import SweGateway.Saf.Equiv.Comments
import SweGateway.Lib.GreedyFill
import SweGateway.Core.Notification.Equiv.Wrap
import SweGateway.Lib.Cells
import SweGateway.Core.Database.Equiv.Cells
import SweGateway.Lib.F64Arith
import SweGateway.Core.Payment.Equiv.Money
import SweGateway.State.Equiv.Linearizable
import SweGateway.Lib.Termination
import SweGateway.Lib.EntryTree
import SweGateway.Core.Input
import SweGateway.Core.Equiv.Input
