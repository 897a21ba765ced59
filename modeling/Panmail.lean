import Panmail.Outbox.Expiry
import Panmail.Outbox.Exclusion
import Panmail.Idempotency.Window
import Panmail.Delivery.Recording
import Panmail.Delivery.Schedule
import Panmail.Delivery.Verdicts
import Panmail.Templates.Screening
import Panmail.Filters.Freshness
import Panmail.Auth.Revocation
import Panmail.RateLimit.Admissions
import Panmail.RateLimit.Debt
import Panmail.Events.Agreement
import Panmail.Events.GetMetrics
import Panmail.Events.Truncation
import Panmail.Events.SharedRetention
import Panmail.Events.Closing
import Panmail.Webhooks.Ordering
import Panmail.Webhooks.FairClaims
import Panmail.Auth.FailureBudget
import Panmail.Auth.Eviction
import Panmail.Auth.Forgiveness
import Panmail.Inbound.Deduplication
import Panmail.Inbound.Interleaving
import Panmail.Inbound.BounceReports
import Panmail.Tracking.RewriteLinks
import Panmail.Events.ProviderWebhooks
import Panmail.Delivery.Admission
import Panmail.Smtp.Session
import Panmail.Smtp.Supervisor
import Panmail.Secrets.RepeatedChange
import Panmail.Secrets.ConcurrentSaves
import Panmail.Secrets.StoredText
import Panmail.SentCopy.Worker
import Panmail.Delivery.Addresses
import Panmail.Administration.UpdateSettings
import Panmail.Auth.Roles
import Panmail.RateLimit.Turns
import Panmail.RateLimit.Cancellation
import Panmail.Templates.History
import Panmail.Templates.HtmlGenerator
