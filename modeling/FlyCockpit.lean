import FlyCockpit.Noise.Codecs
import FlyCockpit.Noise.FallbackLink
import FlyCockpit.Noise.FallbackBindings
import FlyCockpit.Transport.Orderly
import FlyCockpit.Transport.BulkTransfer
import FlyCockpit.Transport.LaneIo
import FlyCockpit.Transport.Accounting
import FlyCockpit.Transport.Attended
import FlyCockpit.Transport.Silence
import FlyCockpit.Transport.Reservations
import FlyCockpit.Transport.Service
import FlyCockpit.Audit.Tamper
import FlyCockpit.Redact.Coverage
import FlyCockpit.Redact.Literals
import FlyCockpit.Redact.Encodings
import FlyCockpit.Redact.Injected
import FlyCockpit.Redact.Paged
import FlyCockpit.Redact.NumberedReads
import FlyCockpit.Approval.Failed
import FlyCockpit.Approval.Paths
import FlyCockpit.Approval.Server
import FlyCockpit.Engine.Healed
import FlyCockpit.Engine.Savings
import FlyCockpit.Noise.FallbackBounds
import FlyCockpit.Locks.Rollback
import FlyCockpit.Locks.WaitGraph
import FlyCockpit.Scheduler.Progress
import FlyCockpit.Scheduler.Running
import FlyCockpit.Edit.Fuzzy
import FlyCockpit.Redact.Intake
import FlyCockpit.WriteScope.Delegation
import FlyCockpit.Background.BudgetWindow
import FlyCockpit.Background.LineReader
import FlyCockpit.Continuity.Refused
import FlyCockpit.Continuity.Reattach
import FlyCockpit.Host.Containment
import FlyCockpit.Engine.Compact
import FlyCockpit.Engine.Elide
