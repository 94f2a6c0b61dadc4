import Kyc.Programs.Interleaving
import Kyc.Tables.Keyed
import Kyc.Tables.Newest
import Kyc.Domain.Validation
import Kyc.Service.Writes
import Kyc.Store.Changes
import Kyc.Service.Steps
import Kyc.Service.Sample
import Kyc.Service.AuditTrail
import Kyc.Service.Identity
import Kyc.Service.Webhooks
import Kyc.Service.Levels
import Kyc.Service.Redelivery
import Kyc.Service.Reconcile
import Kyc.Service.ProviderIsolation
import Kyc.Programs.Linearization
import Kyc.Store.Alike
import Kyc.Service.Serializability
import Kyc.Service.Transactions
import Kyc.Programs.Projection
import Kyc.Store.Users
import Kyc.Service.UserIsolation
import Kyc.Programs.Stable
import Kyc.Service.Ownership
import Kyc.Programs.Ghosts
import Kyc.Service.Effects
import Kyc.Programs.Faults
import Kyc.Service.Atomicity
import Kyc.Tables.Relational
import Kyc.Programs.Scripts
import Kyc.Store.Knex
import Kyc.Store.Agreement
import Kyc.Service.Starts
import Kyc.Service.StaleReads
import Kyc.Service.Tokens
import Kyc.Client.Hook
import Kyc.Client.Embeds
import Kyc.Client.Timers
import Kyc.Client.Moves
import Kyc.Client.Refreshes
import Kyc.Client.Cancels
import Kyc.Client.Settlements
import Kyc.Client.SessionTokens
import Kyc.Json.Syntax
import Kyc.Json.RoundTrip
import Kyc.Json.Fuel
import Kyc.Hosted.Bridge
import Kyc.Http.Handlers
import Kyc.Http.Failures
import Kyc.Encoding.Utf8
import Kyc.Sumsub.Signature
import Kyc.Http.WebhookEvents
import Kyc.Boot.Guard
import Kyc.Encoding.LowerCase
import Kyc.Hosted.Navigation
import Kyc.Sumsub.Page
import Kyc.Sumsub.PageEvents
import Kyc.Client.CallStack
import Kyc.Client.Lockstep
import Kyc.Store.Picks
import Kyc.Store.LastCreated
import Kyc.Sumsub.StatusTable
import Kyc.Json.Shield
import Kyc.Json.Literal
import Kyc.Hosted.Scripts
import Kyc.Service.StartFailures
import Kyc.Http.Inputs
import Kyc.Client.Offline
import Kyc.Client.TokenDelivery
import Kyc.Client.TokenWiring
import Kyc.Limits.FixedWindow
import Kyc.Limits.RateLimiter
import Kyc.Encoding.Url
import Kyc.Hosted.HostedSource
import Kyc.Limits.Sweeps
import Kyc.Limits.EnvLimits
import Kyc.Client.Labels
import Kyc.Sumsub.PageTokens
import Kyc.Hosted.BridgeStub
import Kyc.Programs.Retry
import Kyc.Sumsub.Upstream
import Kyc.Numbers.Conversions
import Kyc.Release.ResolveVersion
import Kyc.Sumsub.NativeContract
import Kyc.Client.FakeSource
import Kyc.Client.Screens
import Kyc.Programs.Yields
import Kyc.Server.Fetch
import Kyc.Server.AccessTokens
import Kyc.Server.App
import Kyc.Server.Container
import Kyc.Server.Policies
import Kyc.Programs.Embedding
import Kyc.Service.Provenance
import Kyc.Service.Authority
import Kyc.Server.Running
import Kyc.Server.Provenance
import Kyc.Server.Authority
import Kyc.Limits.Sliding
import Kyc.Limits.Admissions
import Kyc.Server.Admission
import Kyc.Programs.Later
import Kyc.Service.Continuity
import Kyc.Service.Calls
import Kyc.Service.Acknowledged
import Kyc.Server.Acknowledged
import Kyc.Encoding.Scalars
import Kyc.Encoding.Percent
import Kyc.Sumsub.Client
import Kyc.Sumsub.Attested
