import Sws.Foundation.Segment
import Sws.Foundation.LittleEndian
import Sws.Foundation.Program
import Sws.Foundation.Lockstep
import Sws.Foundation.Transition
import Sws.Foundation.RandomAccess
import Sws.Foundation.Rounds
import Sws.Foundation.Numeral
import Sws.Foundation.Separated
import Sws.Foundation.IpText
import Sws.Foundation.IpRoundTrip
import Sws.Foundation.IpShape
import Sws.Model.Platform
import Sws.Model.Scalar
import Sws.Model.Packet
import Sws.Model.Typed
import Sws.Model.Address
import Sws.Model.Socket
import Sws.Model.Transfer
import Sws.Model.Process
import Sws.Model.Winsock
import Sws.Address.Platform
import Sws.Address.IsNumeric
import Sws.Address.Printing
import Sws.Address.NumericTexts
import Sws.Packet.Spec
import Sws.Packet.Limits
import Sws.Packet.Valid
import Sws.Packet.Capacity
import Sws.Packet.FileRefinement
import Sws.Packet.RoundTrip
import Sws.Packet.StringCodec
import Sws.Packet.Operations
import Sws.Socket.Spec
import Sws.Socket.Effect
import Sws.Socket.Send
import Sws.Packet.Sound
import Sws.Packet.Header
import Sws.Packet.ReadSafety
import Sws.Socket.StaleError
import Sws.Socket.Datagram
import Sws.Address.RoundTrip
import Sws.Foundation.Ownership
import Sws.Process.Handles
import Sws.Process.Spec
import Sws.Process.Ending
import Sws.Process.Connecting
import Sws.Process.Retrying
import Sws.Process.Startup
import Sws.Socket.Receiver
import Sws.Socket.Reassembly
import Sws.Packet.FailedWrites
import Sws.Packet.Resizing
import Sws.Packet.Seeking
import Sws.Socket.SendOrder
import Sws.Socket.ReceiveStatus
import Sws.Socket.HostileHeader
import Sws.Packet.FailedReads
import Sws.Packet.Alike
import Sws.Packet.Clear
import Sws.Packet.Moving
import Sws.Packet.StringFormat
import Sws.Packet.Appending
import Sws.Packet.Decoding
import Sws.Packet.StringBounds
import Sws.Socket.ReceiveBounds
import Sws.Socket.TransferAll
import Sws.Socket.SpanTransfer
import Sws.Socket.Connection
import Sws.Socket.Flow
import Sws.Socket.Delivery
import Sws.Socket.Draining
import Sws.Socket.Network
import Sws.Address.Resolution
import Sws.Process.Members
import Sws.Address.Distinct
import Sws.Foundation.Layout
import Sws.Packet.Messages
import Sws.Packet.Records
import Sws.Socket.ByteStream
import Sws.Foundation.Custody
import Sws.Process.Custody
import Sws.Process.Isolation
import Sws.Socket.Lasting
import Sws.Process.Traversal
import Sws.Process.Ledger
