import HayaSend.Foundations.TransitionSystem
import HayaSend.Foundations.OrderedMap
import HayaSend.Core.Schedule
import HayaSend.Core.RecipientLedger
import HayaSend.Core.LedgerInvariant
import HayaSend.Core.ProviderEventOrder
import HayaSend.Adapters.MemoryStore
import HayaSend.Adapters.MemoryStoreLedger
import HayaSend.Adapters.MemoryStoreSteps
import HayaSend.Services.EmailService
import HayaSend.Services.World
import HayaSend.Services.WorldInvariant
import HayaSend.Services.EventLog
import HayaSend.Services.Submission
import HayaSend.Services.Cancel
import HayaSend.Services.Reschedule
import HayaSend.Services.Stranded
import HayaSend.Adapters.MemoryStoreEvents
import HayaSend.Core.SafetyOutcomes
import HayaSend.Services.OutboxDispatch
import HayaSend.Adapters.SqlDeliveryStores
import HayaSend.Adapters.DynamoStore
import HayaSend.Adapters.IdempotencyClaims
import HayaSend.Adapters.DeliveryStoreRefinement
import HayaSend.Adapters.StoreAgreement
import HayaSend.Services.IdempotencyKeys
import HayaSend.Adapters.MemoryStoreRetention
import HayaSend.Core.CanonicalJson
import HayaSend.Core.RequestText
import HayaSend.Services.EmailIntake
import HayaSend.Services.CreateReplay
import HayaSend.Adapters.LedgerRows
import HayaSend.Foundations.Tokens
import HayaSend.Services.BoundedSends
import HayaSend.Services.Announcements
import HayaSend.Services.ProviderEvents
import HayaSend.Adapters.CloudflareEvents
import HayaSend.Services.AwsReschedule
import HayaSend.Adapters.PostgresJobQueue
import HayaSend.Services.BatchCreate
import HayaSend.Services.TemplateVersions
import HayaSend.Adapters.TemplateStore
import HayaSend.Services.TemplateService
import HayaSend.Adapters.DynamoTemplates
import HayaSend.Services.SerializedTemplates
import HayaSend.Adapters.TemplateHistory
import HayaSend.Services.ReceivedEmails
import HayaSend.Services.InboundIngest
import HayaSend.Adapters.PayloadStorage
import HayaSend.Services.ApiKeys
import HayaSend.Adapters.NodeNetworkSafety
import HayaSend.Services.LedgerSteps
import HayaSend.Services.ScheduleAgreement
import HayaSend.Services.LedgerTimes
import HayaSend.Adapters.MemoryStoreFaults
import HayaSend.Services.ProviderReplays
import HayaSend.Foundations.LeftmostMatches
import HayaSend.Services.TemplateRendering
import HayaSend.Services.PreparedEmails
import HayaSend.Foundations.AddressLists
import HayaSend.Foundations.Expansions
import HayaSend.Services.EnvelopeAddresses
import HayaSend.Adapters.TemplateListing
import HayaSend.Foundations.CappedWaits
import HayaSend.Services.DelayedHops
import HayaSend.Adapters.LogRetention
import HayaSend.Foundations.PrefixCodes
import HayaSend.Services.DeliveryIdentities
import HayaSend.Foundations.Utf8Decoding
import HayaSend.Services.ReceivedContent
import HayaSend.Services.InlineRendering
import HayaSend.Core.CanonicalForms
import HayaSend.Services.RequestHashes
import HayaSend.Services.JobEnvelopes
import HayaSend.Adapters.QueueLeases
import HayaSend.Adapters.D1Reschedule
import HayaSend.Adapters.D1Serializability
import HayaSend.Foundations.CallLog
import HayaSend.Core.LedgerPlans
import HayaSend.Adapters.DynamoLedger
import HayaSend.Adapters.DynamoSerializability
import HayaSend.Adapters.DynamoOutbox
import HayaSend.Foundations.RowLocks
import HayaSend.Adapters.PostgresTransactions
import HayaSend.Adapters.PostgresLedgers
import HayaSend.Foundations.KeysetPaging
import HayaSend.Adapters.PostgresListing
import HayaSend.Adapters.PostgresMigrations
import HayaSend.Core.LedgerRecords
import HayaSend.Adapters.MemoryStoreRecords
