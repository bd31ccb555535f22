import IntelliStore.Library.AtLeastOnce
import IntelliStore.Library.FanOut
import IntelliStore.Library.FieldValue
import IntelliStore.Library.FileTree
import IntelliStore.Library.InsertionMap
import IntelliStore.Library.Json
import IntelliStore.Library.Utf8
import IntelliStore.Library.JsNumber
import IntelliStore.Library.JsonText
import IntelliStore.Library.JsonCodec
import IntelliStore.Library.JsonSize
import IntelliStore.Library.IsoDate
import IntelliStore.Library.Levelling
import IntelliStore.Library.LikePattern
import IntelliStore.Library.ObjectStore
import IntelliStore.Library.Outcomes
import IntelliStore.Library.PosixPath
import IntelliStore.Library.Programs
import IntelliStore.Library.RelyGuarantee
import IntelliStore.Library.Runs
import IntelliStore.Library.Tables
import IntelliStore.Library.Unwinding
import IntelliStore.AppError
import IntelliStore.SharedTypes
import IntelliStore.SharedQueue
import IntelliStore.Metadata.Postgres
import IntelliStore.HttpMessages
import IntelliStore.EventMessages
import IntelliStore.Metadata.Database
import IntelliStore.Metadata.Repository
import IntelliStore.Metadata.FileService
import IntelliStore.Metadata.Messages
import IntelliStore.Metadata.RepositorySpec
import IntelliStore.Metadata.Isolation
import IntelliStore.Metadata.Routes
import IntelliStore.Metadata.Bodies
import IntelliStore.Metadata.SystemStats
import IntelliStore.Metadata.Search
import IntelliStore.Metadata.NotFound
import IntelliStore.Metadata.Totals
import IntelliStore.Metadata.PhysicalBytes
import IntelliStore.Metadata.FileRepository
import IntelliStore.Metadata.InMemory
import IntelliStore.Metadata.InMemorySpec
import IntelliStore.Metadata.Registrations
import IntelliStore.Metadata.DoubleAgreement
import IntelliStore.Metadata.Transactions
import IntelliStore.Metadata.TransactionsSpec
import IntelliStore.Metadata.Uninterleaved
import IntelliStore.Metadata.VersionNumbering
import IntelliStore.Metadata.VersionRaces
import IntelliStore.Metadata.Deletions
import IntelliStore.Storage.Chunking
import IntelliStore.Storage.Backend
import IntelliStore.Storage.MetadataClient
import IntelliStore.Storage.HttpClient
import IntelliStore.Storage.UploadService
import IntelliStore.Storage.DownloadService
import IntelliStore.Storage.UploadSpec
import IntelliStore.Storage.DownloadSpec
import IntelliStore.Storage.Bookkeeping
import IntelliStore.Storage.UploadRollback
import IntelliStore.Storage.Interleaving
import IntelliStore.Storage.VersionOutcome
import IntelliStore.Storage.Splitting
import IntelliStore.Storage.LocalFs
import IntelliStore.Storage.BackendAgreement
import IntelliStore.Storage.LocalFsBackend
import IntelliStore.Storage.DownloadHeader
import IntelliStore.Platform.Run
import IntelliStore.Platform.Wire
import IntelliStore.Platform.Deployment
import IntelliStore.Platform.Effects
import IntelliStore.Platform.LostReplies
import IntelliStore.Platform.Confinement
import IntelliStore.Platform.Publications
import IntelliStore.Platform.RoundTrip
import IntelliStore.Platform.BodySizes
import IntelliStore.Platform.Backends
import IntelliStore.Platform.Deduplication
import IntelliStore.Replication.Cluster
import IntelliStore.Replication.Services
import IntelliStore.Replication.ClusterSpec
import IntelliStore.Replication.Undisturbed
import IntelliStore.Replication.Convergence
import IntelliStore.Replication.System
import IntelliStore.Replication.Visibility
import IntelliStore.Replication.Calls
import IntelliStore.Replication.ServiceRules
import IntelliStore.Replication.Backing
import IntelliStore.Replication.OverReplication
import IntelliStore.Replication.FalseMarks
import IntelliStore.Replication.FailureDetector
import IntelliStore.Replication.Healing
import IntelliStore.Replication.Served
import IntelliStore.Replication.HealingFrame
import IntelliStore.Replication.HealingProgress
import IntelliStore.Replication.HealingIdempotence
import IntelliStore.Replication.Delivery
import IntelliStore.Replication.Redelivery
import IntelliStore.Replication.Placement
import IntelliStore.Replication.Batches
import IntelliStore.Replication.UsedBytes
import IntelliStore.Analytics.AccessStats
import IntelliStore.Analytics.RecordingOrder
import IntelliStore.Analytics.Temperature
import IntelliStore.Analytics.Recommendations
import IntelliStore.Analytics.MetadataClient
import IntelliStore.Auth.Users
import IntelliStore.Auth.SharedAuth
import IntelliStore.Auth.AuthService
import IntelliStore.Auth.Passwords
import IntelliStore.Auth.Tokens
import IntelliStore.Auth.RegistrationRaces
import IntelliStore.Library.Routing
import IntelliStore.Library.Url
import IntelliStore.Library.UrlQuery
import IntelliStore.Gateway.Routes
import IntelliStore.Gateway.Anonymous
import IntelliStore.Storage.MetadataUrls
import IntelliStore.Notification.Service
import IntelliStore.Notification.Accounts
import IntelliStore.Migrations
import IntelliStore.MigrationRuns
import IntelliStore.EventBus
import IntelliStore.Platform.Accesses
import IntelliStore.Platform.Notices
import IntelliStore.Web.Session
import IntelliStore.Web.Client
import IntelliStore.Web.Replies
import IntelliStore.Platform.ReplicaContents
import IntelliStore.Platform.ReplicaIntegrity
