import DataLake.Foundation.Text
import DataLake.Foundation.Sha256
import DataLake.Foundation.IpAddress
import DataLake.Foundation.Scanner
import DataLake.Foundation.Patterns
import DataLake.Foundation.PatternCuts
import DataLake.Foundation.ContentStore
import DataLake.Foundation.Memo
import DataLake.Foundation.Transition
import DataLake.Foundation.Program
import DataLake.Foundation.Runs
import DataLake.Foundation.Mirrors
import DataLake.Foundation.Answers
import DataLake.Foundation.Pool
import DataLake.Foundation.Sessions
import DataLake.Foundation.Testimony
import DataLake.Foundation.Unwinding
import DataLake.Foundation.Checkpoints
import DataLake.Foundation.Generator
import DataLake.Errors
import DataLake.ObjectKeys
import DataLake.RawStore
import DataLake.StoreService
import DataLake.RawMigration
import DataLake.ContentAddressing
import DataLake.PutRule
import DataLake.RoundTrip
import DataLake.TenantScope
import DataLake.MigrationInvariant
import DataLake.MigrationPass
import DataLake.MigrationConvergence
import DataLake.MigrationPrediction
import DataLake.LonePass
import DataLake.WatchedPass
import DataLake.PassCompletion
import DataLake.ProgressReports
import DataLake.ObjectReuse
import DataLake.MigrationReads
import DataLake.Mapping
import DataLake.StrictMapping
import DataLake.Placeholders
import DataLake.Urls
import DataLake.OutboundHttp
import DataLake.Allowlists
import DataLake.Redirects
import DataLake.BoundedResponses
import DataLake.Secrets
import DataLake.CredentialStore
import DataLake.RunRow
import DataLake.RestApiSource
import DataLake.TokenSupport
import DataLake.SqlServerDestination
import DataLake.DestinationLoad
import DataLake.Orchestration
import DataLake.Redaction
import DataLake.CredentialHiding
import DataLake.RunService
import DataLake.Dispatch
import DataLake.Continuations
import DataLake.PageSync
import DataLake.Pagination
import DataLake.Attempt
import DataLake.AttemptSafety
import DataLake.Chain
import DataLake.Redelivery
import DataLake.SingleSync
import DataLake.ResumeChain
import DataLake.CrashRecovery
import DataLake.BodyCalls
import DataLake.Cluster
import DataLake.ClusterLocks
import DataLake.ClusterInvariant
import DataLake.Ownership
import DataLake.RunRecords
import DataLake.TerminalStates
import DataLake.Stranding
import DataLake.ContinuationKeys
import DataLake.ContinuationTrail
import DataLake.TaskChain
import DataLake.Attempts
import DataLake.AttemptHistory
import DataLake.PageVersions
import DataLake.PageAttempts
import DataLake.LoadedVersions
import DataLake.PageCalls
import DataLake.LoadedFlags
import DataLake.Backfill
import DataLake.RecordLimits
import DataLake.MigrationJobs
import DataLake.JobTable
import DataLake.JobProtocol
import DataLake.JobFinality
import DataLake.JobCreation
import DataLake.JobDispatch
import DataLake.JobOutcome
import DataLake.JobCancellation
import DataLake.JobStaleness
import DataLake.RefusedRequests
import DataLake.AuditTrail
import DataLake.JobRecords
import DataLake.TenantIsolation
import DataLake.MigrationCommand
import DataLake.Permissions
import DataLake.OperatorPages
import DataLake.ContinuationOffer
import DataLake.MultiStep
import DataLake.TokenProvider
import DataLake.RealTokens
import DataLake.ClientTimeouts
import DataLake.StepOutputs
import DataLake.TokenReuse
