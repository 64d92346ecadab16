import FileProcessing.Lib.Lts
import FileProcessing.Lib.Pool
import FileProcessing.Lib.Table
import FileProcessing.Worker.Cleanup
import FileProcessing.Worker.Processors
import FileProcessing.Api.JobService
import FileProcessing.System
import FileProcessing.Types
import FileProcessing.World
import FileProcessing.Lemmas.Effects
import FileProcessing.Lemmas.Stages
import FileProcessing.Lemmas.Steps
import FileProcessing.Lemmas.Identity
import FileProcessing.Lemmas.Keys
import FileProcessing.Lemmas.Attempts
import FileProcessing.Theorems.Cancel
import FileProcessing.Lemmas.Locks
import FileProcessing.Theorems.Completed
import FileProcessing.Theorems.Enqueued
import FileProcessing.Lemmas.Outputs
import FileProcessing.Theorems.OneOutput
import FileProcessing.Lemmas.Seen
import FileProcessing.Theorems.ConfirmedUpload
import FileProcessing.Theorems.GuestSweep
import FileProcessing.Lemmas.Objects
import FileProcessing.Theorems.ReadyStored
import FileProcessing.Lib.Collections
import FileProcessing.Lib.Json
import FileProcessing.Lib.Hex
import FileProcessing.Lib.PosixPath
import FileProcessing.Lib.Unicode
import FileProcessing.Db
import FileProcessing.Api.FileService
import FileProcessing.Ws.Gateway
import FileProcessing.Ws.Manager
import FileProcessing.Lemmas.Subscriptions
import FileProcessing.Theorems.TenantIsolation
import FileProcessing.Web.JobWebSocket
import FileProcessing.Web.Flow
import FileProcessing.Theorems.DisplayedJob
import FileProcessing.Web.LiveView
import FileProcessing.Lemmas.Announcements
import FileProcessing.Lemmas.Wire
import FileProcessing.Lemmas.LiveView
import FileProcessing.Theorems.LiveAgreement
import FileProcessing.Lemmas.References
import FileProcessing.Lemmas.Hook
import FileProcessing.Lemmas.Paths
import FileProcessing.Lemmas.Reports
import FileProcessing.Theorems.RowCoherence
import FileProcessing.Theorems.CompletedTruth
import FileProcessing.Theorems.FailedFinal
import FileProcessing.Theorems.UploadFlow
import FileProcessing.Lemmas.Sweeps
import FileProcessing.Theorems.GuestReclaim
import FileProcessing.Theorems.NoOrphans
import FileProcessing.Api.AccountStore
import FileProcessing.Api.ApiKeyService
import FileProcessing.Api.AuthService
import FileProcessing.Accounts
import FileProcessing.Lemmas.Accounts
import FileProcessing.Lemmas.Sessions
import FileProcessing.Theorems.ApiKeyLimit
import FileProcessing.Theorems.SingleSession
import FileProcessing.Theorems.SignedOut
import FileProcessing.Api.Reads
import FileProcessing.Api.Tokens
import FileProcessing.Web.AuthClient
import FileProcessing.Tenants
import FileProcessing.Lemmas.Tenants
import FileProcessing.Lemmas.OwnRows
import FileProcessing.Lemmas.Agreement
import FileProcessing.Lemmas.SessionCalls
import FileProcessing.Theorems.DatabaseIsolation
import FileProcessing.Theorems.HostileMessages
import FileProcessing.Theorems.TokenKinds
import FileProcessing.Api.Schemas
import FileProcessing.Theorems.Storable
import FileProcessing.Theorems.ConfirmIdempotent
import FileProcessing.Theorems.RegistrationAtomic
import FileProcessing.Theorems.DeletedFiles
import FileProcessing.Theorems.RegisteredData
import FileProcessing.Theorems.LiveReservation
import FileProcessing.Lemmas.Passwords
import FileProcessing.Theorems.ExactPassword
import FileProcessing.Lemmas.ApiClient
import FileProcessing.Theorems.SilentRefresh
import FileProcessing.Theorems.ConfinedKeys
import FileProcessing.Api.Replies
import FileProcessing.Lib.HttpField
import FileProcessing.Theorems.DownloadHeaders
import FileProcessing.Theorems.ErrorReplies
import FileProcessing.Lib.Like
import FileProcessing.Theorems.FileSearch
import FileProcessing.Lib.Pages
import FileProcessing.Web.ApiClient
import FileProcessing.Theorems.ListPages
import FileProcessing.Theorems.ExactBroadcast
import FileProcessing.Theorems.EventChannel
import FileProcessing.Lemmas.Removals
import FileProcessing.Theorems.ExactSweep
import FileProcessing.Lib.Base64
import FileProcessing.Lib.Doubles
import FileProcessing.Lib.JsonText
import FileProcessing.Web.GuestToken
import FileProcessing.Theorems.GuestTokens
import FileProcessing.Web.JobRows
import FileProcessing.Theorems.RowCache
import FileProcessing.Theorems.SocketIndexes
import FileProcessing.Api.TestStubs
import FileProcessing.Theorems.TestDoubles
import FileProcessing.Api.Routes
import FileProcessing.Lemmas.Answers
import FileProcessing.Lemmas.Ranks
import FileProcessing.Lemmas.Requests
import FileProcessing.Lib.Liveness
import FileProcessing.Theorems.EventScript
import FileProcessing.Theorems.HttpRequests
import FileProcessing.Theorems.JobsFinish
import FileProcessing.Theorems.Retries
import FileProcessing.Theorems.StorageIsolation
import FileProcessing.Lemmas.CallsLeft
import FileProcessing.Theorems.RequestsAnswered
import FileProcessing.Api.AuthTests
import FileProcessing.Web.Uploads
import FileProcessing.Lemmas.LiveLinks
import FileProcessing.Theorems.AuthDoubles
import FileProcessing.Theorems.SweepsClear
import FileProcessing.Theorems.KeyLedger
import FileProcessing.Theorems.UploadProtocol
import FileProcessing.Theorems.RowHistory
import FileProcessing.Repositories
import FileProcessing.Server
