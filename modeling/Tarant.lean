import Tarant.Foundation.Transition
import Tarant.Foundation.AssocCount
import Tarant.Foundation.LastMatch
import Tarant.Foundation.Positional
import Tarant.Foundation.Pairs
import Tarant.Foundation.Scaled
import Tarant.Foundation.Utf8
import Tarant.Foundation.Feed
import Tarant.Foundation.Splitting
import Tarant.Foundation.Delimited
import Tarant.Foundation.Latest
import Tarant.Foundation.Progress
import Tarant.Foundation.LittleEndian
import Tarant.Foundation.Calendar
import Tarant.Foundation.Base64
import Tarant.Machine
import Tarant.Error
import Tarant.Iproto
import Tarant.Msgpack
import Tarant.Codec
import Tarant.Measure
import Tarant.Layout
import Tarant.Framing
import Tarant.Bounds
import Tarant.Wire
import Tarant.Grammar
import Tarant.Parsing
import Tarant.Replies
import Tarant.Cursor
import Tarant.Building
import Tarant.Reading
import Tarant.Arguments
import Tarant.Updates
import Tarant.Requests
import Tarant.Serving
import Tarant.ErrorStack
import Tarant.Connection.Handshake
import Tarant.Connection.Task
import Tarant.Connection.System
import Tarant.Connection.Moves
import Tarant.Connection.Login
import Tarant.Connection.Callers
import Tarant.Connection.Ledger
import Tarant.Connection.Provenance
import Tarant.Connection.Links
import Tarant.Connection.Records
import Tarant.Connection.Settlement
import Tarant.Connection.Replay
import Tarant.Connection.Abandonment
import Tarant.Connection.Ordering
import Tarant.Connection.Features
import Tarant.Connection.Routing
import Tarant.Connection.Pushes
import Tarant.Connection.Shutdown
import Tarant.Connection.Streams
import Tarant.Connection.Transaction
import Tarant.Connection.Subscriptions
import Tarant.Connection.Watchers
import Tarant.Connection.Leaks
import Tarant.Connection.Broadcast
import Tarant.Connection.Fanout
import Tarant.Connection.Consumer
import Tarant.Connection.Orderly
import Tarant.Connection.Feeding
import Tarant.Connection.Convergence
import Tarant.Connection.Control
import Tarant.Connection.Rollback
import Tarant.Connection.Schema
import Tarant.Connection.Outage
import Tarant.Connection.Finality
import Tarant.Connection.Ending
import Tarant.Connection.Greeting
import Tarant.Connection.Transmission
import Tarant.Connection.Reception
import Tarant.Auth
import Tarant.Statements
import Tarant.Returning
import Tarant.Connection.RoundTrip
import Tarant.Uuid
import Tarant.Uuid.Display
import Tarant.Options
import Tarant.Options.Escapes
import Tarant.Options.Credentials
import Tarant.Options.Address
import Tarant.Options.Redaction
import Tarant.Decimal
import Tarant.Decimal.Value
import Tarant.Decimal.Order
import Tarant.Decimal.Payload
import Tarant.Decimal.Text
import Tarant.Decimal.Display
import Tarant.Decimal.Integers
import Tarant.Datetime
import Tarant.Datetime.Civil
import Tarant.Datetime.Display
import Tarant.Datetime.Payload
import Tarant.Datetime.SystemTime
import Tarant.Interval
