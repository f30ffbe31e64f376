import FederatedAccess.AccessToken
import FederatedAccess.Assertion.Cache
import FederatedAccess.Assertion.Desk
import FederatedAccess.Assertion.Folder
import FederatedAccess.Broker
import FederatedAccess.Broker.Slot
import FederatedAccess.Classification
import FederatedAccess.Config
import FederatedAccess.Config.Fault
import FederatedAccess.Digest.Sha256
import FederatedAccess.Exchange
import FederatedAccess.Exchange.ExpiresOn
import FederatedAccess.Exchange.Form
import FederatedAccess.Exchange.Response
import FederatedAccess.Exchange.Target
import FederatedAccess.Failure
import FederatedAccess.Http.Certificates
import FederatedAccess.Http.Metadata
import FederatedAccess.Http.Status
import FederatedAccess.Http.Wire
import FederatedAccess.Identifier
import FederatedAccess.Json.Lexeme
import FederatedAccess.Json.Reader
import FederatedAccess.Json.Record
import FederatedAccess.Json.Writer
import FederatedAccess.Number.Binary64
import FederatedAccess.Number.Decimal
import FederatedAccess.Number.Shortest
import FederatedAccess.Observation
import FederatedAccess.Rehearsal.Broker
import FederatedAccess.Rehearsal.Desk
import FederatedAccess.Rehearsal.Script
import FederatedAccess.Rehearsal.Session
import FederatedAccess.Scope
import FederatedAccess.Secret
import FederatedAccess.Text.Base64
import FederatedAccess.Text.Blank
import FederatedAccess.Text.LetterCase
import FederatedAccess.Text.Printable
import FederatedAccess.Text.Quoted
import FederatedAccess.Text.Ranges
import FederatedAccess.Text.Search
import FederatedAccess.Text.Utf8
import FederatedAccess.Time.Calendar
import FederatedAccess.Time.Duration
import FederatedAccess.Time.Instant
import FederatedAccess.Time.MailDate
import FederatedAccess.Time.ManualClock
import FederatedAccess.TokenStore
import FederatedAccess.Url
import FederatedAccess.Url.Domain
import FederatedAccess.Url.Host
import FederatedAccess.Url.Percent
import FederatedAccess.Url.Punycode
import FederatedAccess.Proofs.Broker.Move
import FederatedAccess.Proofs.Broker.Slots
import FederatedAccess.Proofs.Broker.Holding
import FederatedAccess.Proofs.Broker.Ledger
import FederatedAccess.Proofs.Broker.Actor
import FederatedAccess.Proofs.Broker.Visiting
import FederatedAccess.Proofs.SingleFlight
import FederatedAccess.Proofs.Broker.Landing
import FederatedAccess.Proofs.SharedOutcome
import FederatedAccess.Proofs.Broker.Provenance
import FederatedAccess.Proofs.TokenProvenance
import FederatedAccess.Proofs.Broker.Bystander
import FederatedAccess.Proofs.Broker.Arrivals
import FederatedAccess.Proofs.Broker.Serving
import FederatedAccess.Proofs.Broker.Gathering
import FederatedAccess.Proofs.Coalescing
import FederatedAccess.Proofs.Broker.Course
import FederatedAccess.Proofs.RetryProtocol
import FederatedAccess.Proofs.Broker.Stores
import FederatedAccess.Proofs.IntactStores
import FederatedAccess.Proofs.Broker.Deadline
import FederatedAccess.Proofs.Broker.Polling
import FederatedAccess.Proofs.Deadlines
import FederatedAccess.Proofs.Broker.Line
import FederatedAccess.Proofs.Broker.Waiting
import FederatedAccess.Proofs.HandOver
import FederatedAccess.Proofs.Broker.Reckoning
import FederatedAccess.Proofs.Broker.Balance
import FederatedAccess.Proofs.Broker.Resolution
import FederatedAccess.Proofs.Conservation
import FederatedAccess.Proofs.Broker.Omission
import FederatedAccess.Proofs.Broker.Renewal
import FederatedAccess.Proofs.Invalidation
import FederatedAccess.Proofs.Desk.Register
import FederatedAccess.Proofs.AtomicRegister
import FederatedAccess.Proofs.Broker.Redaction
import FederatedAccess.Proofs.Documents
import FederatedAccess.Proofs.Replies
import FederatedAccess.Proofs.Secrecy
import FederatedAccess.Proofs.SlotUpkeep
import FederatedAccess.Proofs.Broker.Renumbering
import FederatedAccess.Proofs.Broker.Likeness
import FederatedAccess.Proofs.Broker.Sweeping
import FederatedAccess.Proofs.Purging
import FederatedAccess.Proofs.Text.RoundTrip
import FederatedAccess.Proofs.ScopeText
import FederatedAccess.Proofs.RequestForm
import FederatedAccess.Proofs.TokenResponse
import FederatedAccess.Proofs.ServiceFailures
import FederatedAccess.Proofs.RetryHint
import FederatedAccess.Proofs.Text.Pieces
import FederatedAccess.Proofs.Url.Punycode
import FederatedAccess.Proofs.Url.Domain
import FederatedAccess.Proofs.Url.Host
import FederatedAccess.Proofs.Url.Path
import FederatedAccess.Proofs.Url.Authority
import FederatedAccess.Proofs.Url.ReadBack
import FederatedAccess.Proofs.Broker.Sending
import FederatedAccess.Proofs.TokenEndpoint
import FederatedAccess.Proofs.Destination
import FederatedAccess.Proofs.Calendar
import FederatedAccess.Proofs.Expiry
import FederatedAccess.Proofs.TokenMap
import FederatedAccess.Proofs.ConfigDocument
import FederatedAccess.Proofs.ReadIntervals
import FederatedAccess.Proofs.Text.Base64
import FederatedAccess.Proofs.CanonicalScopes
import FederatedAccess.Proofs.ScopeReadBack
import FederatedAccess.Proofs.Number.Decimal
import FederatedAccess.Proofs.Text.Search
import FederatedAccess.Proofs.Precedence
import FederatedAccess.Proofs.DirectoryNumbers
import FederatedAccess.Proofs.ClientErrors
import FederatedAccess.Proofs.Time.MailDate
import FederatedAccess.Proofs.RetryAfter
import FederatedAccess.Proofs.Identifiers
import FederatedAccess.Proofs.Json.Numeral
import FederatedAccess.Proofs.Json.Value
import FederatedAccess.Proofs.Json.Members
import FederatedAccess.Proofs.AbsoluteExpiry
