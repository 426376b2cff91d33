import GradidoBlockchain.Arnm.Bvec
import GradidoBlockchain.Arnm.Clearing
import GradidoBlockchain.Arnm.Distinct
import GradidoBlockchain.Arnm.Interface
import GradidoBlockchain.Arnm.Keyed
import GradidoBlockchain.Arnm.Reference
import GradidoBlockchain.Arnm.Whole
import GradidoBlockchain.Chain.Answers
import GradidoBlockchain.Chain.Chain
import GradidoBlockchain.Chain.Grown
import GradidoBlockchain.Chain.Layout
import GradidoBlockchain.Chain.Load
import GradidoBlockchain.Chain.Outcome
import GradidoBlockchain.Chain.Reachable
import GradidoBlockchain.Chain.Refused
import GradidoBlockchain.Chain.Reset
import GradidoBlockchain.Chain.Resized
import GradidoBlockchain.Chain.Retry
import GradidoBlockchain.Chain.Steps
import GradidoBlockchain.Chain.Trail
import GradidoBlockchain.Crypto.Paths
import GradidoBlockchain.Crypto.Sign
import GradidoBlockchain.Index.Day
import GradidoBlockchain.Index.Days
import GradidoBlockchain.Index.Distinct
import GradidoBlockchain.Index.Filter
import GradidoBlockchain.Index.Holds
import GradidoBlockchain.Index.Marks
import GradidoBlockchain.Index.RangeOfDays
import GradidoBlockchain.Index.Reached
import GradidoBlockchain.Index.Refusals
import GradidoBlockchain.Index.Represents
import GradidoBlockchain.Index.Reset
import GradidoBlockchain.Index.Retry
import GradidoBlockchain.Index.Scan
import GradidoBlockchain.Index.Sets
import GradidoBlockchain.Index.Transactions
import GradidoBlockchain.Json.Accepted
import GradidoBlockchain.Json.Assembled
import GradidoBlockchain.Json.Elements
import GradidoBlockchain.Json.Filled
import GradidoBlockchain.Json.Freed
import GradidoBlockchain.Json.Interface
import GradidoBlockchain.Json.Names
import GradidoBlockchain.Json.Needed
import GradidoBlockchain.Json.Optional
import GradidoBlockchain.Json.Published
import GradidoBlockchain.Json.Reader
import GradidoBlockchain.Json.Reading
import GradidoBlockchain.Json.Reference
import GradidoBlockchain.Json.Required
import GradidoBlockchain.Json.Root
import GradidoBlockchain.Json.RoundTrip
import GradidoBlockchain.Json.Sized
import GradidoBlockchain.Json.Writer
import GradidoBlockchain.Json.Written
import GradidoBlockchain.Ledger
import GradidoBlockchain.Lib.Account
import GradidoBlockchain.Lib.Alongside
import GradidoBlockchain.Lib.Backlinks
import GradidoBlockchain.Lib.Buffer
import GradidoBlockchain.Lib.Cache
import GradidoBlockchain.Lib.Call
import GradidoBlockchain.Lib.Decimal
import GradidoBlockchain.Lib.Drift
import GradidoBlockchain.Lib.Ends
import GradidoBlockchain.Lib.Granted
import GradidoBlockchain.Lib.Halving
import GradidoBlockchain.Lib.Json
import GradidoBlockchain.Lib.LongDivision
import GradidoBlockchain.Lib.Numbered
import GradidoBlockchain.Lib.Outcome
import GradidoBlockchain.Lib.Owned
import GradidoBlockchain.Lib.Page
import GradidoBlockchain.Lib.Pieces
import GradidoBlockchain.Lib.Reports
import GradidoBlockchain.Lib.Retry
import GradidoBlockchain.Lib.Scan
import GradidoBlockchain.Lib.TextCodec
import GradidoBlockchain.Lib.Truncated
import GradidoBlockchain.Lib.Unwind
import GradidoBlockchain.Lib.WireBytes
import GradidoBlockchain.Lib.WireFormat
import GradidoBlockchain.Lib.WireParts
import GradidoBlockchain.Pb.Canonical
import GradidoBlockchain.Pb.Encoded
import GradidoBlockchain.Pb.Encoder
import GradidoBlockchain.Pb.Extents
import GradidoBlockchain.Pb.Measured
import GradidoBlockchain.Pb.Messages
import GradidoBlockchain.Pb.Newer
import GradidoBlockchain.Pb.OnePass
import GradidoBlockchain.Pb.Peek
import GradidoBlockchain.Pb.ReadBack
import GradidoBlockchain.Pb.Reader
import GradidoBlockchain.Pb.RoundTrip
import GradidoBlockchain.Pb.Schema
import GradidoBlockchain.Pb.Writing
import GradidoBlockchain.Pb.Written
import GradidoBlockchain.Register.Addresses
import GradidoBlockchain.Register.Answers
import GradidoBlockchain.Register.History
import GradidoBlockchain.Register.Refusals
import GradidoBlockchain.Register.Reset
import GradidoBlockchain.Register.Retry
import GradidoBlockchain.Runtime.Carried
import GradidoBlockchain.Runtime.Decode
import GradidoBlockchain.Runtime.Filled
import GradidoBlockchain.Runtime.Filling
import GradidoBlockchain.Runtime.FromWire
import GradidoBlockchain.Runtime.Record
import GradidoBlockchain.Runtime.Sized
import GradidoBlockchain.Store.Accounts
import GradidoBlockchain.Store.Alike
import GradidoBlockchain.Store.Appending
import GradidoBlockchain.Store.Coherence
import GradidoBlockchain.Store.Content
import GradidoBlockchain.Store.Ffi
import GradidoBlockchain.Store.Getters
import GradidoBlockchain.Store.InMemory
import GradidoBlockchain.Store.Loading
import GradidoBlockchain.Time.Printing
import GradidoBlockchain.Time.Timestamp
import GradidoBlockchain.Types
import GradidoBlockchain.Unit.Balances
import GradidoBlockchain.Unit.Dates
import GradidoBlockchain.Unit.Decay
import GradidoBlockchain.Unit.Division
import GradidoBlockchain.Unit.Fp256
import GradidoBlockchain.Unit.FromString
import GradidoBlockchain.Unit.Growth
import GradidoBlockchain.Unit.Law
import GradidoBlockchain.Unit.Multiplication
import GradidoBlockchain.Unit.Numerals
import GradidoBlockchain.Unit.R128
import GradidoBlockchain.Unit.Refined
import GradidoBlockchain.Unit.RoundTrip
import GradidoBlockchain.Unit.ToString
import GradidoBlockchain.Unit.Windowed
import GradidoBlockchain.Validate.Common
import GradidoBlockchain.Validate.Details
import GradidoBlockchain.Wire.Absent
import GradidoBlockchain.Wire.Accepted
import GradidoBlockchain.Wire.Allocation
import GradidoBlockchain.Wire.Arrival
import GradidoBlockchain.Wire.Decode
import GradidoBlockchain.Wire.Encode
import GradidoBlockchain.Wire.Encoding
import GradidoBlockchain.Wire.Faithful
import GradidoBlockchain.Wire.Hiero
import GradidoBlockchain.Wire.Messages
import GradidoBlockchain.Wire.RoundTrip
import GradidoBlockchain.Wire.Sent
import GradidoBlockchain.Wire.Unwound
import GradidoBlockchain.Wire.Values
