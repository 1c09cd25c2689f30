import PaymentWebhook.Transactions.Engine
import PaymentWebhook.Transactions.Program
import PaymentWebhook.Transactions.Triples
import PaymentWebhook.Transactions.Serial
import PaymentWebhook.Transactions.Interleaving
import PaymentWebhook.JsString
import PaymentWebhook.Money
import PaymentWebhook.Transactions.Tables
import PaymentWebhook.Schema
import PaymentWebhook.Statements
import PaymentWebhook.Locking
import PaymentWebhook.Sanitize
import PaymentWebhook.Worker
import PaymentWebhook.Webhooks
import PaymentWebhook.Dlq
import PaymentWebhook.Provider
import PaymentWebhook.Reconciliation
import PaymentWebhook.Logs
import PaymentWebhook.System
import PaymentWebhook.Changes
import PaymentWebhook.Columns
import PaymentWebhook.Transactions.Alone
import PaymentWebhook.Calls
import PaymentWebhook.Sequential
import PaymentWebhook.Consumption
import PaymentWebhook.ExactlyOnce
import PaymentWebhook.LifeCycle
import PaymentWebhook.Deliveries
import PaymentWebhook.Atomicity
import PaymentWebhook.Registers.LastWriter
import PaymentWebhook.Projection
import PaymentWebhook.Transactions.Work
import PaymentWebhook.Transactions.Stamps
import PaymentWebhook.Trail
import PaymentWebhook.Repairs
import PaymentWebhook.Serializability
import PaymentWebhook.Entries
import PaymentWebhook.Identities
import PaymentWebhook.Requests
import PaymentWebhook.Snapshots
import PaymentWebhook.Transactions.Waiting
import PaymentWebhook.SnapshotRuns
import PaymentWebhook.Admission
import PaymentWebhook.Deadlock
import PaymentWebhook.Origins
import PaymentWebhook.Registers.Coalesce
import PaymentWebhook.OrderMoney
import PaymentWebhook.Transactions.Reads
import PaymentWebhook.Queries
import PaymentWebhook.Chronology
import PaymentWebhook.Failures
import PaymentWebhook.Replays
import PaymentWebhook.Convergence
import PaymentWebhook.Signatures
import PaymentWebhook.Redaction
import PaymentWebhook.Logging
import PaymentWebhook.ErrorSinks
import PaymentWebhook.EventTypes
import PaymentWebhook.WorkerLoop
import PaymentWebhook.Migrations
import PaymentWebhook.MigrationLogs
import PaymentWebhook.MigrationRuns
import PaymentWebhook.MigrationRecovery
import PaymentWebhook.DlqPages
import PaymentWebhook.RetryCycle
import PaymentWebhook.Payloads
import PaymentWebhook.Generator
import PaymentWebhook.GeneratedEvents
import PaymentWebhook.Feeds
import PaymentWebhook.Simulation
import PaymentWebhook.Oracle
import PaymentWebhook.Transactions.Ledger
import PaymentWebhook.Attempts
import PaymentWebhook.Pool
import PaymentWebhook.Books
import PaymentWebhook.Chaos
import PaymentWebhook.OrderReads
import PaymentWebhook.Verdict
import PaymentWebhook.Acceptance
import PaymentWebhook.ProviderFeed
import PaymentWebhook.Agreement
import PaymentWebhook.Linearizability
import PaymentWebhook.Endpoints
import PaymentWebhook.Metrics
import PaymentWebhook.Configuration
import PaymentWebhook.Healing
import PaymentWebhook.Lists.Pages
import PaymentWebhook.DlqWalks
import PaymentWebhook.Shuffles
import PaymentWebhook.WorkerLogs
