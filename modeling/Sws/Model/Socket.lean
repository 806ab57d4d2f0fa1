import Sws.Model.Address
import Sws.Model.Typed

/-!
# Socket: Sending and Receiving Packets

`Socket::send(Packet&)`, `Socket::receive(Packet&)` and the datagram calls of `UdpSocket`,
with the loops and the error handling of the source.

## Model

- `Host` is what one call works on: the socket, the packet, and the native side (`Net`).
- The results of the native calls are a script.  A result outside the contract of the native
  call (more bytes than offered, a failure without an error code) does not occur: the call
  stays pending, as it does when the script is used up.
- A failing native call sets the thread's last error, a succeeding one leaves it.
-/

namespace Sws

open Sws.Foundation

/-- The protocol of a socket. -/
inductive Protocol
  | invalid
  | tcp
  | udp
  deriving DecidableEq, Repr

/-- A native handle; `INVALID_SOCKET` is the absence of one. -/
abbrev Handle := ℕ

/-- The receive buffer of a datagram socket, an array of `datagram_size` bytes. -/
structure Datagram where
  bytes : List UInt8
  length_eq : bytes.length = datagramSize
  deriving DecidableEq, Repr

/-- The buffer of a new socket. -/
def Datagram.zeroed : Datagram := ⟨List.replicate datagramSize 0, List.length_replicate⟩

/-- The buffer after a native receive put bytes at its front; no call gives more than it
holds. -/
def Datagram.receive (d : Datagram) (bytes : List UInt8) : Datagram :=
  ⟨(splice d.bytes 0 bytes).takeD datagramSize 0, List.takeD_length ..⟩

structure Socket where
  handle : Option Handle := none
  protocol : Protocol := .invalid
  remoteAddress : Address := {}
  localAddress : Address := {}
  blocking : Bool := true
  connected : Bool := false
  nativeError : SocketError := .none
  /-- The receive buffer of a datagram socket; a move leaves its source without. -/
  datagram : Option Datagram := none
  deriving DecidableEq, Repr

/-- The result of `::send`, `::recv`, `sendto` or `recvfrom`. -/
inductive NativeResult
  | count (n : ℕ)
  | failure (e : SocketError)
  deriving DecidableEq, Repr

/-- The native side of a socket. -/
structure Net where
  /-- The thread's last error. -/
  lastError : SocketError := .none
  /-- The results of the native calls to come. -/
  results : List NativeResult := []
  /-- The bytes that native receives deliver. -/
  inbound : List UInt8 := []
  /-- Where a received datagram comes from. -/
  source : Sockaddr := .unsupported 0
  /-- The bytes that native sends have accepted. -/
  accepted : List UInt8 := []
  /-- The ranges of the packet handed to native sends: position and length. -/
  offered : List (Int × Int) := []
  /-- The ranges of the packet handed to native receives: position and length. -/
  requested : List (Int × Int) := []
  /-- The native addresses handed to `sendto`. -/
  destinations : List Sockaddr := []
  deriving DecidableEq, Repr

structure Host where
  socket : Socket
  packet : Packet
  net : Net
  deriving DecidableEq, Repr

/-- Programs on a socket, a packet and the network. -/
abbrev HostM := EStateM Fault Host

/-- Runs a packet's member function. -/
def onPacket {α : Type} (m : PacketM α) : HostM α :=
  zoom Host.packet (fun p h => { h with packet := p }) m

def modifyPacket (f : Packet → Packet) : HostM Unit :=
  modify fun h => { h with packet := f h.packet }

def modifySocket (f : Socket → Socket) : HostM Unit :=
  modify fun h => { h with socket := f h.socket }

def modifyNet (f : Net → Net) : HostM Unit :=
  modify fun h => { h with net := f h.net }

namespace Socket

/-! ## Native calls -/

/-- Takes the next native result; a failure sets the last error.  `limit` is the largest count
the call can return. -/
def nativeCall (limit : ℕ) : HostM Int := do
  match (← get).net.results with
  | [] => throw .pending
  | .failure e :: rest =>
    if e = .none then throw .pending
    modifyNet fun net => { net with results := rest, lastError := e }
    return -1
  | .count n :: rest =>
    if n > limit then throw .pending
    modifyNet fun net => { net with results := rest }
    return n

/-- `send(const uint8_t*, int)` on a range of the packet's buffer. -/
def sendRange (pos length : Int) : HostM Int := do
  modifyNet fun net => { net with offered := net.offered ++ [(pos, length)] }
  let sent ← nativeCall length.toNat
  let data := (← get).packet.data
  modifyNet fun net =>
    { net with accepted := net.accepted ++ (data.drop pos.toNat).take sent.toNat }
  return sent

/-- `receive(uint8_t*, int)`: the result, and the bytes put in the caller's buffer. -/
def receiveBytes (length : Int) : HostM (Int × List UInt8) := do
  let inbound := (← get).net.inbound
  let received ← nativeCall (min length.toNat inbound.length)
  modifyNet fun net => { net with inbound := inbound.drop received.toNat }
  return (received, inbound.take received.toNat)

/-- `receive(uint8_t*, int)` into a range of the packet's buffer. -/
def receiveRange (pos length : Int) : HostM Int := do
  modifyNet fun net => { net with requested := net.requested ++ [(pos, length)] }
  let (received, bytes) ← receiveBytes length
  modifyPacket fun p => { p with data := splice p.data pos.toNat bytes }
  return received

/-! ## Errors -/

/-- `get_error_inst`: stores the thread's last error. -/
def getErrorInst : HostM SocketError := do
  let error := (← get).net.lastError
  modifySocket fun s => { s with nativeError := error }
  return error

def getErrorState : HostM SocketState := do
  return toState (← getErrorInst)

def clearErrorState : HostM SocketState := do
  modifySocket fun s => { s with nativeError := .none }
  return .done

/-! ## Sending -/

/-- The `do … while (result == in_progress)` loop of `send`.  Every round that does not leave
the loop uses up a native result, which bounds the rounds by `fuel`. -/
def sendLoop : (fuel : ℕ) → (result : SocketState) → HostM SocketState
  | 0, _ => throw .pending
  | fuel + 1, result => do
    let p := (← get).packet
    -- the state of the round before, or of no round at all
    if p.getSendRemainder ≤ 0 then return result
    let sent ← sendRange p.sendPos p.getSendRemainder
    if sent > 0 then modifyPacket fun p => { p with sendPos := p.sendPos + sent }
    -- the last error, which a round that sends does not set
    let result ← getErrorState
    if result = .inProgress then sendLoop fuel result else return result

/-- `send(Packet&)`. -/
def send : HostM SocketState := do
  let h ← get
  if h.packet.empty then
    modifyPacket Packet.sendReset
    return (← clearErrorState)
  -- a "connected" datagram socket has no partial writes
  if h.socket.protocol = .udp then
    let _ ← sendRange 0 h.packet.data.length
    return (← getErrorState)
  if h.packet.sendPos = -1 then
    let sent ← sendRange 0 h.packet.data.length
    if sent > 0 then modifyPacket fun p => { p with sendPos := sent }
  -- a first send that gave nothing leaves `send_pos_` at -1, and the loop has nothing to do
  let result ← sendLoop ((← get).net.results.length + 1) .done
  modifyPacket Packet.sendReset
  return result

/-! ## Receiving -/

/-- `receive_datagram_packet(packet, received)`. -/
def receiveDatagramPacket (received : Int) : HostM SocketState := do
  if received = -1 ∨ received = 0 then return (← getErrorState)
  enforce (toSize received ≥ packetlenSize) "packet too small to be a packet"
  let some datagram := (← get).socket.datagram | throw (.undefined .nullPointer)
  -- the header of the datagram against the size that was received
  let size := ofBytes (datagram.bytes.take packetlenSize)
  enforce (size = toSize (received % 2 ^ 16 - packetlenSize)) "packet contains malformed size"
  onPacket Packet.clear
  onPacket (Packet.resize received.toNat)
  modifyPacket fun p => { p with writePos := 0 }
  -- at 0 the write takes the header of the datagram for that of the packet
  let _ ← onPacket (Packet.writeData (datagram.bytes.take received.toNat) true)
  clearErrorState

/-- Receives a datagram into the socket's buffer. -/
def receiveDatagram : HostM Int := do
  let some datagram := (← get).socket.datagram | throw (.undefined .nullPointer)
  let (received, bytes) ← receiveBytes datagramSize
  modifySocket fun s => { s with datagram := some (datagram.receive bytes) }
  return received

/-- The first half of `receive(Packet&)`: reads the length header if none is pending. -/
def receiveHeader : HostM Unit := do
  let p := (← get).packet
  if p.recvPos < 0 ∧ p.recvTarget < 0 then onPacket Packet.clear
  if p.recvTarget < 0 then
    let (received, bytes) ← receiveBytes packetlenSize
    let size := ofBytes bytes
    -- a header in parts, or of size 0, is dropped
    if received = packetlenSize ∧ size > 0 then
      modifyPacket fun p => { p with recvTarget := size }

/-- The second half of `receive(Packet&)`: reads the announced payload. -/
def receiveBody : HostM SocketState := do
  onPacket (Packet.resize (toSize ((← get).packet.recvTarget + packetlenSize)))
  -- every call starts behind the header, whatever arrived before
  modifyPacket fun p => { p with recvPos := packetlenSize }
  let p := (← get).packet
  let received ← receiveRange p.recvPos p.getRecvRemainder
  if received > 0 then modifyPacket fun p => { p with recvPos := p.recvPos + received }
  if (← get).packet.getRecvRemainder = 0 then modifyPacket Packet.recvReset
  getErrorState

/-- `receive(Packet&)`. -/
def receive : HostM SocketState := do
  if (← get).socket.protocol = .udp then
    return (← receiveDatagramPacket (← receiveDatagram))
  receiveHeader
  if (← get).packet.recvTarget ≤ 0 then return (← getErrorState)
  receiveBody

end Socket

/-! ## Datagram sockets -/

namespace UdpSocket

open Socket

/-- `send_to(const Packet&, const Address&)`. -/
def sendTo (inet : InetText) (address : Address) : HostM SocketState := do
  let p := (← get).packet
  if p.empty then return (← clearErrorState)
  let native ← liftExcept (address.toNative inet)
  modifyNet fun net => { net with destinations := net.destinations ++ [native] }
  let sent ← sendRange 0 p.data.length
  if sent = 0 ∨ sent = -1 then return (← getErrorState)
  clearErrorState

/-- `receive_from(Packet&, Address&)`; the address is the one assigned, if any. -/
def receiveFrom (inet : InetText) : HostM (SocketState × Option Address) := do
  let received ← receiveDatagram
  let address ← if received = -1 then pure none
    else some <$> liftExcept (Address.fromNative inet (← get).net.source)
  return (← receiveDatagramPacket received, address)

end UdpSocket

end Sws
