import Resilience.Onchain.Chain
import Resilience.Onchain.Receipts
import Resilience.Onchain.Outcomes
import Resilience.Onchain.Parity
import Resilience.Rust.AuditRuns
import Resilience.Audit.Canonical
import Resilience.Audit.Writers
import Resilience.Python.IdempotencyShared
import Resilience.Python.CircuitCallers
import Resilience.Python.RetryShared
import Resilience.Python.RetryAgree
import Resilience.TypeScript.AuditRuns
import Resilience.TypeScript.Auth
import Resilience.TypeScript.ProxyGuard
import Resilience.TypeScript.RateLimitRuns
import Resilience.Rust.FileLedgerShared
import Resilience.Rust.FileLedgerTorn
import Resilience.Rust.Paths
import Resilience.Rust.Timestamp
import Resilience.Onchain.Fees
import Resilience.Onchain.Accounting
import Resilience.TypeScript.Canonical
import Resilience.Forge.ResolverRuns
import Resilience.Forge.ResolverTiers
import Resilience.Forge.WebhookText
import Resilience.Tiered.Parity
import Resilience.TypeScript.Redirects
import Resilience.Python.RetryBookkeeping
import Resilience.TypeScript.RetryHeader
import Resilience.TypeScript.SafeFetchRuns
import Resilience.Rust.RetryRuns
import Resilience.Scope.Athena
import Resilience.Forge.TimingSafe
import Resilience.Scope.Handlers
import Resilience.Scope.Polling
import Resilience.Scope.Ingestion
import Resilience.Audit.Mixed
import Resilience.Python.AtomicShared
import Resilience.Tiered.Reporting
import Resilience.Audit.Confinement
import Resilience.Audit.Tampering
import Resilience.Retry.Agreement
import Resilience.Python.IdempotencyWriters
import Resilience.TypeScript.Timeouts
import Resilience.Python.RetryTime
