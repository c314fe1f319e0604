import FleetManagement.Api.Account
import FleetManagement.Api.Fleet
import FleetManagement.Api.Privacy
import FleetManagement.Api.Refusals
import FleetManagement.Api.Rentals
import FleetManagement.Cache.Backend
import FleetManagement.Cache.Freshness
import FleetManagement.Cache.Paths
import FleetManagement.Cache.Requests
import FleetManagement.Cache.Staleness
import FleetManagement.Consents.Batch
import FleetManagement.Consents.Commits
import FleetManagement.Consents.Dispatch
import FleetManagement.Consents.Gate
import FleetManagement.Consents.History
import FleetManagement.Consents.Replay
import FleetManagement.Consents.Requests
import FleetManagement.Database
import FleetManagement.Lemmas.FleetOutcomes
import FleetManagement.Lemmas.Handlers
import FleetManagement.Lemmas.Outcomes
import FleetManagement.Lemmas.Quiet
import FleetManagement.Lemmas.Rejections
import FleetManagement.Lemmas.Services
import FleetManagement.Lemmas.Sessions
import FleetManagement.Lemmas.Statements
import FleetManagement.Library.Answers
import FleetManagement.Library.Bisect
import FleetManagement.Library.Crew
import FleetManagement.Library.Job
import FleetManagement.Library.Json
import FleetManagement.Library.JsonReader
import FleetManagement.Library.JsonText
import FleetManagement.Library.Locking
import FleetManagement.Library.Patches
import FleetManagement.Library.Pool
import FleetManagement.Library.PyDict
import FleetManagement.Library.PyFloats
import FleetManagement.Library.PyFormat
import FleetManagement.Library.PyJson
import FleetManagement.Library.PyTexts
import FleetManagement.Library.PyValue
import FleetManagement.Library.Query
import FleetManagement.Library.References
import FleetManagement.Library.Regex
import FleetManagement.Library.RegexCuts
import FleetManagement.Library.RegexScan
import FleetManagement.Library.RegexTokens
import FleetManagement.Library.Rely
import FleetManagement.Library.Runs
import FleetManagement.Library.Table
import FleetManagement.Library.Texts
import FleetManagement.Library.Tx
import FleetManagement.Library.TxCalls
import FleetManagement.Library.Wp
import FleetManagement.Models
import FleetManagement.Privacy.Accountability
import FleetManagement.Privacy.Authority
import FleetManagement.Privacy.Correlation
import FleetManagement.Privacy.CorrelationIds
import FleetManagement.Privacy.EmailMasking
import FleetManagement.Privacy.EmbeddedSecrets
import FleetManagement.Privacy.Erasure
import FleetManagement.Privacy.EscapedTexts
import FleetManagement.Privacy.Exports
import FleetManagement.Privacy.FaithfulLines
import FleetManagement.Privacy.Flush
import FleetManagement.Privacy.Guarding
import FleetManagement.Privacy.Hits
import FleetManagement.Privacy.Integrity
import FleetManagement.Privacy.JsonLines
import FleetManagement.Privacy.LeakingLines
import FleetManagement.Privacy.LeakingMessages
import FleetManagement.Privacy.LeakingValues
import FleetManagement.Privacy.Lifecycle
import FleetManagement.Privacy.Lockout
import FleetManagement.Privacy.LogRecords
import FleetManagement.Privacy.Masks
import FleetManagement.Privacy.Middleware
import FleetManagement.Privacy.Noninterference
import FleetManagement.Privacy.Permanence
import FleetManagement.Privacy.PhoneMasking
import FleetManagement.Privacy.PhoneWords
import FleetManagement.Privacy.Race
import FleetManagement.Privacy.ReadableLines
import FleetManagement.Privacy.Rebuilding
import FleetManagement.Privacy.Refusal
import FleetManagement.Privacy.Requests
import FleetManagement.Privacy.RightOfAccess
import FleetManagement.Privacy.SafeLogging
import FleetManagement.Privacy.Sanitizer
import FleetManagement.Privacy.SecretTails
import FleetManagement.Privacy.SettledNames
import FleetManagement.Privacy.SettledNumbers
import FleetManagement.Privacy.SettledSecrets
import FleetManagement.Privacy.Settling
import FleetManagement.Privacy.SharedDomains
import FleetManagement.Privacy.SharedKeys
import FleetManagement.Privacy.SignIn
import FleetManagement.Privacy.StructuredSecrets
import FleetManagement.Privacy.Tangles
import FleetManagement.Privacy.TokenFree
import FleetManagement.Privacy.Values
import FleetManagement.Privacy.WritableValues
import FleetManagement.Rentals.Booking
import FleetManagement.Rentals.Capacity
import FleetManagement.Rentals.Custody
import FleetManagement.Rentals.Discount
import FleetManagement.Rentals.Flush
import FleetManagement.Rentals.History
import FleetManagement.Rentals.Ledger
import FleetManagement.Rentals.Occupancy
import FleetManagement.Rentals.Returns
import FleetManagement.Rentals.Revenue
import FleetManagement.Services.Account
import FleetManagement.Services.Consent
import FleetManagement.Services.Erasure
import FleetManagement.Services.Export
import FleetManagement.Services.Marketing
import FleetManagement.Services.Pricing
import FleetManagement.Services.Rental
import FleetManagement.Services.Resilience
import FleetManagement.Services.Station
import FleetManagement.Services.VehicleState
import FleetManagement.Telemetry.Backend
import FleetManagement.Telemetry.Convergence
import FleetManagement.Telemetry.Degradation
import FleetManagement.Telemetry.Delivery
import FleetManagement.Telemetry.Driving
import FleetManagement.Telemetry.HotCache
import FleetManagement.Telemetry.Parking
import FleetManagement.Telemetry.Poison
import FleetManagement.Telemetry.Positions
import FleetManagement.Telemetry.Retries
import FleetManagement.Telemetry.Schemas
import FleetManagement.Telemetry.Simulator
import FleetManagement.Telemetry.Worker
import FleetManagement.Telemetry.Workers
import FleetManagement.Web.MapPolling
import FleetManagement.Web.Navigation
import FleetManagement.Web.Profile
import FleetManagement.Web.Router
