import PushIT.Library.Transition
import PushIT.Library.Table
import PushIT.Library.LastSet
import PushIT.Library.JsonText
import PushIT.Library.JsonLoads
import PushIT.Library.Coverage
import PushIT.Library.CivilTime
import PushIT.Models
import PushIT.Scheduling
import PushIT.Services
import PushIT.Queueing
import PushIT.Creation
import PushIT.World
import PushIT.PassSteps
import PushIT.ProcessSteps
import PushIT.Exclusion
import PushIT.Sending
import PushIT.AtMostOnce
import PushIT.Attempts
import PushIT.Queued
import PushIT.Exhaustion
import PushIT.RequestSteps
import PushIT.NotificationSteps
import PushIT.Invalidation
import PushIT.Targets
import PushIT.Editing
import PushIT.Views
import PushIT.Visibility
import PushIT.Recipients
import PushIT.Subscribers
import PushIT.Attachments
import PushIT.Takeover
import PushIT.Fingerprint
import PushIT.AppToken
import PushIT.AppTokenSteps
import PushIT.Idempotency
import PushIT.SendAnswers
import PushIT.Replay
import PushIT.Applications
import PushIT.ApplicationSteps
import PushIT.Credentials
import PushIT.Aliases
import PushIT.Accounts
import PushIT.AccountSecurity
import PushIT.Billing
import PushIT.DeviceUpdates
import PushIT.Treatment
import PushIT.Agreement
import PushIT.Stranding
import PushIT.Vanishing
import PushIT.LinkAudit
import PushIT.Library.Delimited
import PushIT.Signature
import PushIT.Quota
import PushIT.Freshness
import PushIT.Separation
import PushIT.InboundChecks
import PushIT.InboundMail
import PushIT.InboundMailbox
import PushIT.Polling
import PushIT.Ingestion
import PushIT.BypassJournal
import PushIT.PollLock
import PushIT.ExchangeService
import PushIT.ExchangeFailures
import PushIT.Authorisation
import PushIT.Replies
import PushIT.Retention
import PushIT.SignIn
import PushIT.SessionGate
import PushIT.Sessions
import PushIT.AccountErasure
import PushIT.ErasureComplete
import PushIT.Brussels
import PushIT.Deferral
import PushIT.QuietPeriods
import PushIT.QuietPeriodWrites
import PushIT.Merging
import PushIT.SendPass
import PushIT.Receipts
import PushIT.Resending
import PushIT.EffectiveDates
import PushIT.SenderPolicy
import PushIT.GeneratedAliases
import PushIT.SubjectSchedule
import PushIT.BulkSend
import PushIT.EffectiveListing
import PushIT.Templates
import PushIT.AuthenticationResults
import PushIT.UrlSafety
import PushIT.Webhooks
import PushIT.Library.Rest
import PushIT.Quiescence
import PushIT.Library.References
import PushIT.Integrity
import PushIT.Library.Admission
import PushIT.Library.Refinement
import PushIT.NotificationLifecycle
import PushIT.Crypto
import PushIT.SendTokens
import PushIT.Reveals
import PushIT.Library.Unwinding
import PushIT.RefreshCookies
import PushIT.CookieSessions
import PushIT.Library.Paragraphs
import PushIT.HtmlText
import PushIT.SignUps
import PushIT.Enumeration
import PushIT.GraphMessages
import PushIT.AliasMigration
