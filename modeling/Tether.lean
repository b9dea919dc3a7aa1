import Tether.Identity
import Tether.Json.Printer
import Tether.Message.Expectation
import Tether.Message.FieldKind
import Tether.Proofs.Crypto.Sealing
import Tether.Proofs.Envelope.Authentication
import Tether.Proofs.Envelope.Extent
import Tether.Proofs.Envelope.Layout
import Tether.Proofs.Envelope.RoundTrip
import Tether.Proofs.Envelope.Safety
import Tether.Proofs.Identity.Permanence
import Tether.Proofs.Json.Numbers
import Tether.Proofs.Json.RoundTrip
import Tether.Proofs.Message.Fields
import Tether.Proofs.Message.Scans
import Tether.Proofs.Session.Accounting
import Tether.Proofs.Session.Allocation
import Tether.Proofs.Session.Answers
import Tether.Proofs.Session.Backlog
import Tether.Proofs.Session.Backoff
import Tether.Proofs.Session.Circle
import Tether.Proofs.Session.Consistency
import Tether.Proofs.Session.Discipline
import Tether.Proofs.Session.Endings
import Tether.Proofs.Session.Expiry
import Tether.Proofs.Session.Failures
import Tether.Proofs.Session.Farewell
import Tether.Proofs.Session.Flush
import Tether.Proofs.Session.Gear
import Tether.Proofs.Session.Ledger
import Tether.Proofs.Session.Lines
import Tether.Proofs.Session.Order
import Tether.Proofs.Session.Overruns
import Tether.Proofs.Session.Phase
import Tether.Proofs.Session.Pool
import Tether.Proofs.Session.Readiness
import Tether.Proofs.Session.Replaced
import Tether.Proofs.Session.Routing
import Tether.Proofs.Session.SentTimes
import Tether.Proofs.Session.ServerClock
import Tether.Proofs.Session.Settings
import Tether.Proofs.Session.Settling
import Tether.Proofs.Session.Steps
import Tether.Proofs.Session.Submission
import Tether.Proofs.Session.Teardown
import Tether.Proofs.Transport.Stream
import Tether.Rehearsal.Script
import Tether.Session.Settings.Document
