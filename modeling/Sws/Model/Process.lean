import Mathlib.Logic.Function.Basic
import Sws.Model.Socket

/-!
# Process: the Lives of Socket Objects

Construction, `bind`, `connect`, `listen`, `accept`, moves, `close` and destruction of any
number of `TcpSocket` and `UdpSocket` objects, as the code of `Socket` and `TcpSocket` does
them.

## Model

- A member function is a program on the process: the socket objects that are alive, and the
  native side they share.
- The results of the native calls are a script, as for `Host`.  `::socket` and `::accept`
  return no handle twice.
- With every handle passed to `closesocket` the process keeps the objects of that moment.
- An address that was moved from keeps its port and its family; its text is empty.
-/

namespace Sws

/-- The name of a socket object. -/
abbrev SocketId := ℕ

/-- The result of a native call that is neither a send nor a receive. -/
inductive NativeReply
  /-- The handle that `::socket` or `::accept` returns. -/
  | handle (h : Handle)
  /-- The address that `getsockname` or `getpeername` gives. -/
  | address (a : Sockaddr)
  | success
  | failure (e : SocketError)
  deriving DecidableEq, Repr

/-- A call of `closesocket`. -/
structure Closing where
  handle : Handle
  /-- The object that closes its handle. -/
  owner : SocketId
  /-- The objects when the call is made. -/
  sockets : SocketId → Option Socket

structure Process where
  /-- The socket objects that are alive. -/
  sockets : SocketId → Option Socket := fun _ => none
  /-- The thread's last error. -/
  lastError : SocketError := .none
  /-- The results of the native calls to come. -/
  replies : List NativeReply := []
  /-- The handles that native calls have returned. -/
  opened : List Handle := []
  closings : List Closing := []

/-- The handles that were passed to `closesocket`, in order. -/
def Process.closed (w : Process) : List Handle := w.closings.map Closing.handle

/-- Programs on a process. -/
abbrev ProcessM := EStateM Fault Process

namespace Process

/-! ## Objects -/

/-- Access to an object; there is none at the end of its life. -/
def socketAt (self : SocketId) : ProcessM Socket := do
  match (← get).sockets self with
  | some s => return s
  | none => throw (.undefined .nullPointer)

/-- Puts an object at its place, or takes it away. -/
def putSocket (self : SocketId) (s : Option Socket) : ProcessM Unit :=
  modify fun w => { w with sockets := Function.update w.sockets self s }

def modifySocket (self : SocketId) (f : Socket → Socket) : ProcessM Unit := do
  let s ← socketAt self
  putSocket self (some (f s))

/-! ## Native calls -/

/-- A native call that returns a handle, or `INVALID_SOCKET`. -/
def openNative : ProcessM (Option Handle) := do
  let w ← get
  match w.replies with
  | .handle h :: rest =>
    if h ∈ w.opened then throw .pending
    modify fun w => { w with replies := rest, opened := w.opened ++ [h] }
    return some h
  | .failure e :: rest =>
    if e = .none then throw .pending
    modify fun w => { w with replies := rest, lastError := e }
    return none
  | _ => throw .pending

/-- A native call that succeeds, or returns `SOCKET_ERROR`. -/
def callNative : ProcessM Bool := do
  match (← get).replies with
  | .success :: rest =>
    modify fun w => { w with replies := rest }
    return true
  | .failure e :: rest =>
    if e = .none then throw .pending
    modify fun w => { w with replies := rest, lastError := e }
    return false
  | _ => throw .pending

/-- A native call that gives an address, or returns `SOCKET_ERROR`. -/
def nameNative : ProcessM (Option Sockaddr) := do
  match (← get).replies with
  | .address a :: rest =>
    modify fun w => { w with replies := rest }
    return some a
  | .failure e :: rest =>
    if e = .none then throw .pending
    modify fun w => { w with replies := rest, lastError := e }
    return none
  | _ => throw .pending

/-- `closesocket`, called by an object. -/
def closesocket (self : SocketId) (h : Handle) : ProcessM Bool := do
  modify fun w => { w with closings := w.closings ++ [⟨h, self, w.sockets⟩] }
  callNative

/-! ## Errors -/

/-- `get_error_inst`. -/
def getErrorInst (self : SocketId) : ProcessM SocketError := do
  let error := (← get).lastError
  modifySocket self fun s => { s with nativeError := error }
  return error

def getErrorState (self : SocketId) : ProcessM SocketState := do
  return toState (← getErrorInst self)

def clearErrorState (self : SocketId) : ProcessM SocketState := do
  modifySocket self fun s => { s with nativeError := .none }
  return .done

/-! ## Member functions -/

def close (self : SocketId) : ProcessM Unit := do
  match (← socketAt self).handle with
  | none => pure ()
  | some h =>
    -- `shutdown`; the results of both calls are ignored
    let _ ← callNative
    let _ ← closesocket self h
    modifySocket self fun s => { s with handle := none }
  modifySocket self fun s => { s with remoteAddress := {}, localAddress := {}, connected := false }

/-- `blocking(bool)`. -/
def setBlocking (self : SocketId) (value : Bool) : ProcessM SocketState := do
  modifySocket self fun s => { s with blocking := value }
  if (← socketAt self).handle = none then return ← clearErrorState self
  -- `ioctlsocket`
  if (← callNative) = false then return ← getErrorState self
  clearErrorState self

def initSocket (self : SocketId) : ProcessM Unit := do
  let s ← socketAt self
  if s.handle ≠ none then return
  match ← openNative with
  | none => throw (.thrown (.socketException "::socket failed" (← getErrorInst self)))
  | some h =>
    modifySocket self fun s => { s with handle := some h }
    let state ← setBlocking self s.blocking
    enforce (state = .done) "Enforcement failed."

/-- `update_local_address`. -/
def updateLocalAddress (inet : InetText) (self : SocketId) : ProcessM Unit := do
  match ← nameNative with
  | none => pure ()
  | some a =>
    let address ← liftExcept (Address.fromNative inet a)
    modifySocket self fun s => { s with localAddress := address }

/-- `update_remote_address`. -/
def updateRemoteAddress (inet : InetText) (self : SocketId) : ProcessM Unit := do
  match ← nameNative with
  | none => pure ()
  | some a =>
    let address ← liftExcept (Address.fromNative inet a)
    modifySocket self fun s => { s with remoteAddress := address }

def updateAddresses (inet : InetText) (self : SocketId) : ProcessM Unit := do
  updateLocalAddress inet self
  updateRemoteAddress inet self

def bind (inet : InetText) (self : SocketId) (address : Address) : ProcessM SocketState := do
  enforce ((← socketAt self).handle = none) "Cannot bind an already initialized socket."
  let _ ← liftExcept (address.toNative inet)
  initSocket self
  let _ ← liftExcept address.nativeSize
  if (← callNative) = false then return ← getErrorState self
  updateAddresses inet self
  clearErrorState self

def connect (inet : InetText) (self : SocketId) (address : Address) : ProcessM SocketState := do
  enforce ((← socketAt self).connected = false) "Cannot connect on already connected socket."
  let _ ← liftExcept (address.toNative inet)
  initSocket self
  let _ ← liftExcept address.nativeSize
  if (← callNative) = false then return ← getErrorState self
  modifySocket self fun s => { s with connected := true }
  updateAddresses inet self
  clearErrorState self

def listen (self : SocketId) : ProcessM SocketState := do
  if (← callNative) = false then return ← getErrorState self
  clearErrorState self

/-! ## Construction, moves, destruction -/

/-- The members after `Socket(protocol, blocking)`. -/
def constructed (protocol : Protocol) (blocking : Bool) : Socket where
  protocol := protocol
  blocking := blocking
  datagram :=
    if protocol = .udp then some Datagram.zeroed else none

/-- `Socket(protocol, blocking)`. -/
def construct (self : SocketId) (protocol : Protocol) (blocking : Bool) : ProcessM Unit := do
  enforce (protocol ≠ .invalid) "Invalid socket protocol provided."
  putSocket self (some (constructed protocol blocking))

/-- What a move leaves in its source. -/
def movedFrom (s : Socket) : Socket :=
  { s with
    handle := none
    remoteAddress := { s.remoteAddress with address := "" }
    localAddress := { s.localAddress with address := "" }
    connected := false
    nativeError := .none
    datagram := none }

/-- Moves the members out of an object. -/
def moveOut (rhs : SocketId) : ProcessM Socket := do
  let s ← socketAt rhs
  putSocket rhs (some (movedFrom s))
  return s

/-- The move constructor. -/
def moveConstruct (self rhs : SocketId) : ProcessM Unit := do
  let s ← moveOut rhs
  putSocket self (some s)

/-- The body of the move assignment, for any source to move from. -/
def moveInto (self : SocketId) (source : ProcessM Socket) : ProcessM Unit := do
  close self
  let s ← source
  modifySocket self fun _ => s

/-- The move assignment. -/
def moveAssign (self rhs : SocketId) : ProcessM Unit := do
  if rhs ≠ self then moveInto self (moveOut rhs)

def destroy (self : SocketId) : ProcessM Unit := do
  close self
  putSocket self none

/-- `TcpSocket::accept`, into any object, the listener included. -/
def accept (inet : InetText) (self s : SocketId) : ProcessM SocketState := do
  match ← openNative with
  | none => getErrorState self
  | some sock =>
    -- a temporary; what is left of it holds no handle, and its destructor closes none
    let temporary := constructed .tcp (← socketAt self).blocking
    moveInto s (pure temporary)
    modifySocket s fun t => { t with handle := some sock }
    modifySocket s fun t => { t with connected := true }
    let _ ← setBlocking s (← socketAt self).blocking
    updateAddresses inet s
    clearErrorState self

end Process

end Sws
