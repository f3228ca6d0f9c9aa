import KatHttp3.Library.Rfc3986
import KatHttp3.Library.Transition
import KatHttp3.Library.CallStacks
import KatHttp3.Library.Unwinding
import KatHttp3.Library.UrgencyQueues
import KatHttp3.Library.WeightedList
import KatHttp3.Library.Ledger
import KatHttp3.Library.Parties
import KatHttp3.Library.LatestPerKey
import KatHttp3.Library.Calendar
import KatHttp3.Library.Tokens
import KatHttp3.Connection.ReceiveCredit
import KatHttp3.Connection.Conservation
import KatHttp3.Text.Str
import KatHttp3.Text.HeaderList
import KatHttp3.Text.Trim
import KatHttp3.Text.LetterCase
import KatHttp3.Url.Parse
import KatHttp3.Url.RoundTrip
import KatHttp3.Url.Redirect
import KatHttp3.Url.DotSegments
import KatHttp3.Url.Components
import KatHttp3.Url.Resolution
import KatHttp3.Url.CacheKey
import KatHttp3.Cache.CacheControl
import KatHttp3.Cache.HttpDate
import KatHttp3.Cache.CivilDays
import KatHttp3.Cache.DateTexts
import KatHttp3.Cache.DateRoundTrip
import KatHttp3.Cache.RollingYear
import KatHttp3.Cache.ResponseCache
import KatHttp3.Cache.Runs
import KatHttp3.Cache.Provenance
import KatHttp3.Cache.Accounting
import KatHttp3.Cache.Merge
import KatHttp3.Cache.StaleWindow
import KatHttp3.Cache.Admission
import KatHttp3.Cache.RequestDirectives
import KatHttp3.Cache.DirectiveMeaning
import KatHttp3.Cache.DirectiveOrder
import KatHttp3.Cache.DirectiveSyntax
import KatHttp3.Cache.DeltaSeconds
import KatHttp3.Cache.StoreOrder
import KatHttp3.Cache.Retention
import KatHttp3.Cache.RetentionRoom
import KatHttp3.Engine.Job
import KatHttp3.Engine.Callbacks
import KatHttp3.Engine.Replies
import KatHttp3.Engine.Call
import KatHttp3.Engine.Speaking
import KatHttp3.Engine.Events
import KatHttp3.Engine.StaleOnError
import KatHttp3.Engine.Credentials
import KatHttp3.Engine.Budget
import KatHttp3.Engine.Capture
import KatHttp3.Engine.StoredReplies
import KatHttp3.Engine.Framing
import KatHttp3.Engine.RequestFields
import KatHttp3.Cookies.CookieDate
import KatHttp3.Cookies.CookieJar
import KatHttp3.Cookies.Confinement
import KatHttp3.Cookies.DateAgreement
import KatHttp3.Cookies.Identity
import KatHttp3.Cookies.Eviction
import KatHttp3.Cookies.MaxAge
import KatHttp3.Engine.Cookies
import KatHttp3.Engine.Threads
import KatHttp3.Engine.Silence
import KatHttp3.Engine.Execute
import KatHttp3.Connection.RequestBody
import KatHttp3.Connection.Upload
import KatHttp3.Connection.ContentLength
import KatHttp3.Connection.Client
import KatHttp3.Connection.Worker
import KatHttp3.Connection.References
import KatHttp3.Connection.Attempts
import KatHttp3.Connection.Notices
import KatHttp3.Connection.Stranding
import KatHttp3.Connection.Replay
import KatHttp3.Connection.Failover
import KatHttp3.Kotlin.Calls
import KatHttp3.Kotlin.Retries
import KatHttp3.Kotlin.BodyDelivery
import KatHttp3.Kotlin.BufferBudget
import KatHttp3.Kotlin.RequestScheduler
import KatHttp3.Kotlin.Origins
import KatHttp3.Jni.ClientLease
import KatHttp3.Engine.Invalidation
import KatHttp3.Dns.WorkerPool
import KatHttp3.Dns.SingleFlight
import KatHttp3.Dns.FlightRuns
import KatHttp3.Dns.Waiters
import KatHttp3.Dns.CachedResolver
import KatHttp3.Library.Slices
import KatHttp3.Library.Departures
import KatHttp3.Library.MachineInt
import KatHttp3.Library.LeastValue
import KatHttp3.Library.Delimited
import KatHttp3.Library.PercentCoding
import KatHttp3.Library.Utf8
import KatHttp3.Connection.SendQueue
import KatHttp3.Connection.CreditWakeup
import KatHttp3.Connection.PumpRuns
import KatHttp3.Connection.WaitRuns
import KatHttp3.Connection.Resumption
import KatHttp3.Connection.ResponseHeaders
import KatHttp3.Connection.Deadlines
import KatHttp3.Jni.BodyBatch
import KatHttp3.Jni.QlogSink
import KatHttp3.Engine.CachedDispatcher
import KatHttp3.Engine.Pool
import KatHttp3.Engine.PoolSteps
import KatHttp3.Engine.PoolIntegrity
import KatHttp3.Engine.Retirement
import KatHttp3.Engine.Ended
import KatHttp3.Engine.Locks
import KatHttp3.Engine.LockOrder
import KatHttp3.Engine.NetworkChange
import KatHttp3.Engine.NetworkRuns
import KatHttp3.Connection.HandshakeRace
import KatHttp3.Connection.RaceRuns
import KatHttp3.Library.RecencyList
import KatHttp3.Dns.Recency
import KatHttp3.Dns.DohCache
import KatHttp3.Kotlin.StreamingPermit
import KatHttp3.Kotlin.BodyProducer
import KatHttp3.Kotlin.Multipart
import KatHttp3.Kotlin.FormBody
