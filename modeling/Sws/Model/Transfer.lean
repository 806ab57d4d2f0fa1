import Sws.Model.Socket

/-!
# Transfer: Sending and Receiving a Whole Buffer

`TcpSocket::send_all` and `TcpSocket::receive_all`, for a pointer with a length and for a span, and
`UdpSocket::send_to` and `UdpSocket::receive_from` for a pointer with a length.

## Model

- `Exchange` is what one call works on: the host, and the caller's buffer.
- The two loops of the source are one, with the native call for its parameter.
-/

namespace Sws

open Sws.Foundation

structure Exchange where
  host : Host
  /-- The buffer of the caller. -/
  buffer : List UInt8
  deriving DecidableEq, Repr

/-- Programs on a host and a buffer. -/
abbrev ExchangeM := EStateM Fault Exchange

/-- Runs a program of the host. -/
def onHost {α : Type} (m : HostM α) : ExchangeM α :=
  zoom Exchange.host (fun h x => { x with host := h }) m

namespace TcpSocket

open Socket

/-- `send(&data[pos], length)`. -/
def sendFrom (pos length : Int) : ExchangeM Int := do
  onHost (modifyNet fun net => { net with offered := net.offered ++ [(pos, length)] })
  let sent ← onHost (nativeCall length.toNat)
  let data := (← get).buffer
  onHost (modifyNet fun net =>
    { net with accepted := net.accepted ++ (data.drop pos.toNat).take sent.toNat })
  return sent

/-- `receive(&data[pos], length)`. -/
def receiveTo (pos length : Int) : ExchangeM Int := do
  onHost (modifyNet fun net => { net with requested := net.requested ++ [(pos, length)] })
  let (received, bytes) ← onHost (receiveBytes length)
  modify fun x => { x with buffer := splice x.buffer pos.toNat bytes }
  return received

/-- The `while (total < length)` loop.  Every round that does not leave it uses up a native
result, which bounds the rounds by `fuel`. -/
def transferLoop (transfer : Int → Int → ExchangeM Int) (length : Int) :
    (fuel : ℕ) → (total : Int) → ExchangeM Bool
  | 0, _ => throw .pending
  | fuel + 1, total => do
    if ¬total < length then return true
    let count ← transfer total (length - total)
    if count = 0 then return false
    if count < 0 then
      if (← onHost getErrorInst) = .wouldBlock then
        transferLoop transfer length fuel total
      else
        return false
    else
      transferLoop transfer length fuel (total + count)

/-- `send_all(const uint8_t*, int)`. -/
def sendAll (length : Int) : ExchangeM Bool := do
  transferLoop sendFrom length ((← get).host.net.results.length + 1) 0

/-- `receive_all(uint8_t*, int)`. -/
def receiveAll (length : Int) : ExchangeM Bool := do
  transferLoop receiveTo length ((← get).host.net.results.length + 1) 0

/-- `send_all(std::span<const uint8_t>)`, for the whole buffer. -/
def sendAllSpan : ExchangeM Bool := do
  sendAll (toInt (← get).buffer.length)

/-- `receive_all(std::span<uint8_t>)`, for the whole buffer. -/
def receiveAllSpan : ExchangeM Bool := do
  receiveAll (toInt (← get).buffer.length)

end TcpSocket

namespace UdpSocket

open Socket

/-- `send_to(const uint8_t*, int, const Address&)`, from the start of the buffer. -/
def sendBytesTo (inet : InetText) (length : Int) (address : Address) : ExchangeM Int := do
  let native ← liftExcept (address.toNative inet)
  let _ ← liftExcept address.nativeSize
  onHost (modifyNet fun net => { net with destinations := net.destinations ++ [native] })
  TcpSocket.sendFrom 0 length

/-- `receive_from(uint8_t*, int, Address&)`, to the start of the buffer; the address is the one
assigned, if any. -/
def receiveBytesFrom (inet : InetText) (length : Int) : ExchangeM (Int × Option Address) := do
  let received ← TcpSocket.receiveTo 0 length
  if received = -1 then return (received, none)
  let address ← liftExcept (Address.fromNative inet (← get).host.net.source)
  return (received, some address)

end UdpSocket

end Sws
