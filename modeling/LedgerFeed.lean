import LedgerFeed.Main
import LedgerFeed.Session
import LedgerFeed.Value.Display
import LedgerFeed.Proofs.Subscription.Run
import LedgerFeed.Proofs.Subscription.Yield
import LedgerFeed.Proofs.Subscription.Ahead
import LedgerFeed.Proofs.Subscription.Delivery
import LedgerFeed.Proofs.Subscription.Draining
import LedgerFeed.Proofs.Bytes
import LedgerFeed.Proofs.Cbor.RoundTrip
import LedgerFeed.Proofs.Compact.RoundTrip
import LedgerFeed.Proofs.Compact.Lengths
import LedgerFeed.Proofs.Codec.Compact
import LedgerFeed.Proofs.Text.Decimal
import LedgerFeed.Proofs.Text.Hex
import LedgerFeed.Proofs.Json.Induction
import LedgerFeed.Proofs.Json.Lexing
import LedgerFeed.Proofs.Json.RoundTrip
import LedgerFeed.Proofs.Json.Nesting
import LedgerFeed.Proofs.Verbose.RoundTrip
import LedgerFeed.Proofs.Codec.Verbose
import LedgerFeed.Proofs.Cbor.Bounds
import LedgerFeed.Proofs.Compact.Bounds
import LedgerFeed.Proofs.Json.Weight
import LedgerFeed.Proofs.Verbose.Bounds
import LedgerFeed.Proofs.Codec.Transcoding
import LedgerFeed.Proofs.Subscription.Cancellation
import LedgerFeed.Proofs.Subscription.Outcome
import LedgerFeed.Proofs.Subscription.Report
import LedgerFeed.Proofs.Socket.Calls
import LedgerFeed.Proofs.Socket.Handshake
import LedgerFeed.Proofs.Socket.Served
import LedgerFeed.Proofs.Cbor.Grammar
import LedgerFeed.Proofs.Compact.Acceptance
import LedgerFeed.Proofs.Codec.Sniffing
import LedgerFeed.Proofs.Conversion.Faithful
import LedgerFeed.Proofs.Session.Isolation
import LedgerFeed.Proofs.Subscription.Accounting
import LedgerFeed.Proofs.Timestamp.RoundTrip
import LedgerFeed.Proofs.Json.Record
import LedgerFeed.Proofs.Message.RoundTrip
import LedgerFeed.Proofs.Message.Wire
import LedgerFeed.Proofs.Cbor.Truncation
import LedgerFeed.Proofs.Compact.Truncation
import LedgerFeed.Proofs.Cbor.Shortest
import LedgerFeed.Proofs.Compact.Shortest
import LedgerFeed.Proofs.Compact.Consumption
import LedgerFeed.Proofs.CommandLine.Decode
import LedgerFeed.Proofs.Conversion.Checks
import LedgerFeed.Proofs.Conversion.FirstFault
import LedgerFeed.Proofs.Conversion.Recoding
import LedgerFeed.Proofs.Client.Faults
import LedgerFeed.Proofs.Session.Opening
import LedgerFeed.Proofs.Text.FixedPoint
import LedgerFeed.Proofs.Codec.FixedPoint
import LedgerFeed.Proofs.Verbose.Contents
import LedgerFeed.Proofs.Codec.Strictness
import LedgerFeed.Proofs.Json.Rearranged
import LedgerFeed.Proofs.Json.Spacing
import LedgerFeed.Proofs.Verbose.Unread
import LedgerFeed.Proofs.Codec.Unread
import LedgerFeed.Proofs.Json.Ending
import LedgerFeed.Proofs.Codec.Ending
import LedgerFeed.Proofs.Sequence
import LedgerFeed.Proofs.Request.RoundTrip
import LedgerFeed.Proofs.Request.Name
import LedgerFeed.Proofs.Identifier
import LedgerFeed.Proofs.Codec.Faults
import LedgerFeed.Proofs.Json.Number
import LedgerFeed.Proofs.Json.Limit
import LedgerFeed.Proofs.Value.RoundTrip
import LedgerFeed.Proofs.Verbose.Guard
import LedgerFeed.Proofs.Verbose.Admission
