import Sws.Process.Handles
import Sws.Socket.Lasting

/-!
# Runs of All Member Functions

Between the operations on socket objects, a program sends and receives on them.  For the objects of
a process it does not matter what is sent and received: a transfer works with any packet or buffer
and with any native results, and changes next to nothing of the object it is called on.

## Key Results

- `transfer_cases`: what a transfer does to a process.
- `owned_act`, `reached_owned`: handles stay owned in runs of all member functions.
-/

namespace Sws.Process

open Sws.Foundation

/-! ## Transfers -/

/-- A call that sends or receives a packet, or a buffer. -/
inductive Transfer
  | send
  | receive
  | sendTo (address : Address)
  | receiveFrom
  | sendFrom (pos length : Int)
  | receiveTo (pos length : Int)
  | sendBytesTo (length : Int) (address : Address)
  | receiveBytesFrom (length : Int)
  | sendAll (length : Int)
  | receiveAll (length : Int)
  | sendAllSpan
  | receiveAllSpan

def Transfer.apply (inet : InetText) : Transfer → ExchangeM Unit
  | .send => onHost do let _ ← Socket.send
  | .receive => onHost do let _ ← Socket.receive
  | .sendTo address => onHost do let _ ← UdpSocket.sendTo inet address
  | .receiveFrom => onHost do let _ ← UdpSocket.receiveFrom inet
  | .sendFrom pos length => do let _ ← TcpSocket.sendFrom pos length
  | .receiveTo pos length => do let _ ← TcpSocket.receiveTo pos length
  | .sendBytesTo length address => do let _ ← UdpSocket.sendBytesTo inet length address
  | .receiveBytesFrom length => do let _ ← UdpSocket.receiveBytesFrom inet length
  | .sendAll length => do let _ ← TcpSocket.sendAll length
  | .receiveAll length => do let _ ← TcpSocket.receiveAll length
  | .sendAllSpan => do let _ ← TcpSocket.sendAllSpan
  | .receiveAllSpan => do let _ ← TcpSocket.receiveAllSpan

open TcpSocket in
/-- No transfer leaves a trace in what lasts of a socket. -/
theorem Transfer.steady (inet : InetText) (call : Transfer) : SteadyHost (call.apply inet) := by
  have hdone : ∀ {α : Type} {m : HostM α}, Steady m → SteadyHost (onHost do let _ ← m) :=
    fun hm => onHost_steady (Preserves.bind hm fun _ => Preserves.pure _)
  have hdone' : ∀ {α : Type} {m : ExchangeM α}, SteadyHost m → SteadyHost (do let _ ← m) :=
    fun hm => Preserves.bind hm fun _ => Preserves.pure _
  cases call with
  | send => exact hdone Socket.send_steady
  | receive => exact hdone Socket.receive_steady
  | sendTo address => exact hdone (UdpSocket.sendTo_steady inet address)
  | receiveFrom => exact hdone (UdpSocket.receiveFrom_steady inet)
  | sendFrom pos length => exact hdone' (sendFrom_steady pos length)
  | receiveTo pos length => exact hdone' (receiveTo_steady pos length)
  | sendBytesTo length address => exact hdone' (UdpSocket.sendBytesTo_steady inet length address)
  | receiveBytesFrom length => exact hdone' (UdpSocket.receiveBytesFrom_steady inet length)
  | sendAll length => exact hdone' (sendAll_steady length)
  | receiveAll length => exact hdone' (receiveAll_steady length)
  | sendAllSpan => exact hdone' (Preserves.bind Preserves.get fun _ => sendAll_steady _)
  | receiveAllSpan => exact hdone' (Preserves.bind Preserves.get fun _ => receiveAll_steady _)

/-! ## Actions -/

/-- What a program does: an operation on objects, or a transfer on one of them. -/
inductive Action
  | operate (op : Operation)
  /-- The packet, the buffer and the native results are any. -/
  | transfer (self : SocketId) (call : Transfer) (packet : Packet) (buffer : List UInt8) (net : Net)

/-- One action, whose exceptions are caught. -/
def Act (inet : InetText) (w : Process) : Action → Process → Prop
  | .operate op, w' => Step inet w op w'
  | .transfer self call packet buffer net, w' =>
    ∃ s x, w.sockets self = some s ∧
      Leaves Caught (call.apply inet)
        ⟨⟨s, packet, { net with lastError := w.lastError }⟩, buffer⟩ x ∧
      w' = { w with
        sockets := Function.update w.sockets self (some x.host.socket)
        lastError := x.host.net.lastError }

section Transfers

variable {inet : InetText} {w w' : Process} {self : SocketId} {call : Transfer} {packet : Packet}
  {buffer : List UInt8} {net : Net}

/-- **A transfer** changes one object, and nothing that lasts of it. -/
theorem transfer_cases (h : Act inet w (.transfer self call packet buffer net) w') :
    ∃ s t e, w.sockets self = some s ∧ t.lasting = s.lasting ∧
      w' = { w with sockets := Function.update w.sockets self (some t), lastError := e } := by
  obtain ⟨s, x, hs, hleaves, rfl⟩ := h
  refine ⟨s, x.host.socket, _, hs, ?_, rfl⟩
  rw [hleaves.eq_finalState]
  exact call.steady inet ⟨⟨s, packet, { net with lastError := w.lastError }⟩, buffer⟩

/-- The handle lasts. -/
theorem handle_of_lasting {s t : Socket} (h : t.lasting = s.lasting) : t.handle = s.handle := by
  have hhandle : t.lasting.handle = s.lasting.handle := by rw [h]
  exact hhandle

/-- A transfer changes no handle. -/
theorem sameHandles_transfer (h : Act inet w (.transfer self call packet buffer net) w') :
    SameHandles w w' := by
  obtain ⟨s, t, e, hs, ht, rfl⟩ := transfer_cases h
  have hsame := (SameHandles.refl w).change hs (handle_of_lasting ht)
  exact ⟨hsame.handles, rfl, rfl⟩

end Transfers

/-! ## Runs -/

/-- The process is reached by some run of actions. -/
def Reached (inet : InetText) (w : Process) : Prop :=
  ∃ w₀ actions, Starts w₀ ∧ Reaches (Act inet) w₀ actions w

section Runs

variable {inet : InetText} {w w' : Process} {a : Action}

/-- **One action** leaves every handle owned. -/
theorem owned_act (h : Owned none w) (hact : Act inet w a w') : Owned none w' := by
  cases a with
  | operate op => exact owned_step h hact
  | transfer self call packet buffer net => exact (moved_nil (sameHandles_transfer hact)).owned h

theorem owned_of_reaches {actions : List Action} (h : Owned none w)
    (hrun : Reaches (Act inet) w actions w') : Owned none w' :=
  hrun.invariant (fun _ _ _ howned hact => owned_act howned hact) h

theorem reached_owned (h : Reached inet w) : Owned none w := by
  obtain ⟨w₀, actions, hstarts, hrun⟩ := h
  exact owned_of_reaches (owned_of_starts hstarts) hrun

end Runs

end Sws.Process
