import Sws.Model.Transfer
import Sws.Socket.Spec

/-!
# What Sending and Receiving Leave Alone

A socket that sends or receives stores errors, and a datagram socket receives into its buffer.
Everything else about it stays as it was, however a call ends: its handle, its protocol, its
addresses, its mode, its connection, and whether it has a buffer.

## Key Results

- `send_steady`, `receive_steady`, `sendTo_steady`, `receiveFrom_steady`: packets.
- `sendAll_steady`, `receiveAll_steady`: buffers.
-/

namespace Sws

open Sws.Foundation

/-- A socket up to what sending and receiving change: the error and the bytes of the buffer. -/
def Socket.lasting (s : Socket) : Socket :=
  { s with nativeError := .none, datagram := s.datagram.map fun _ => Datagram.zeroed }

/-- However the program ends, it leaves what lasts of the socket as it was. -/
abbrev Steady {α : Type} (m : HostM α) : Prop :=
  Preserves (fun h : Host => h.socket.lasting) m

namespace Steady

/-- The native side is no part of a socket, and neither is the packet. -/
theorem modifyNet (f : Net → Net) : Steady (modifyNet f) := Preserves.modify fun _ => rfl

theorem modifyPacket (f : Packet → Packet) : Steady (modifyPacket f) :=
  Preserves.modify fun _ => rfl

/-- A program on the packet does not reach the socket. -/
theorem onPacket {α : Type} (m : PacketM α) : Steady (onPacket m) :=
  Preserves.zoom_other fun _ _ => rfl

theorem liftExcept {α : Type} (x : Except Exception α) : Steady (liftExcept x) := by
  cases x with
  | ok a => exact Preserves.pure a
  | error e => exact Preserves.throw _

theorem enforce {c : Prop} [Decidable c] (message : String) : Steady (enforce c message) :=
  Preserves.ite (Preserves.pure _) (Preserves.throw _)

end Steady

namespace Socket

/-! ## Native calls -/

/-- A native call takes its result, and stores what failed, on the native side. -/
theorem nativeCall_steady (limit : ℕ) : Steady (nativeCall limit) := by
  intro h
  rcases answers_cases limit h.net.results with ⟨n, rest, hres, hn⟩ | ⟨e, rest, hres, he⟩ | hpending
  · rw [nativeCall_count _ hres hn]
    rfl
  · rw [nativeCall_failure _ hres he]
    rfl
  · rw [nativeCall_pending _ hpending]
    rfl

theorem sendRange_steady (pos length : Int) : Steady (sendRange pos length) := by
  refine Preserves.bind (Steady.modifyNet _) fun _ => ?_
  refine Preserves.bind (nativeCall_steady _) fun _ => Preserves.bind Preserves.get fun _ => ?_
  exact Preserves.bind (Steady.modifyNet _) fun _ => Preserves.pure _

theorem receiveBytes_steady (length : Int) : Steady (receiveBytes length) := by
  refine Preserves.bind Preserves.get fun _ => Preserves.bind (nativeCall_steady _) fun _ => ?_
  exact Preserves.bind (Steady.modifyNet _) fun _ => Preserves.pure _

/-- The bytes that arrive go to the packet. -/
theorem receiveRange_steady (pos length : Int) : Steady (receiveRange pos length) := by
  refine Preserves.bind (Steady.modifyNet _) fun _ => Preserves.bind (receiveBytes_steady _) ?_
  exact fun _ => Preserves.bind (Steady.modifyPacket _) fun _ => Preserves.pure _

/-! ## Errors -/

/-- An error is stored in the socket, where it does not last. -/
theorem getErrorInst_steady : Steady getErrorInst :=
  Preserves.bind Preserves.get fun _ => Preserves.bind (Preserves.modify fun _ => rfl) fun _ =>
    Preserves.pure _

theorem getErrorState_steady : Steady getErrorState :=
  Preserves.bind getErrorInst_steady fun _ => Preserves.pure _

theorem clearErrorState_steady : Steady clearErrorState :=
  Preserves.bind (Preserves.modify fun _ => rfl) fun _ => Preserves.pure _

/-! ## Packets -/

/-- Every round sends a range, and looks at the error if nothing was sent. -/
theorem sendLoop_steady (fuel : ℕ) (result : SocketState) : Steady (sendLoop fuel result) := by
  induction fuel generalizing result with
  | zero => exact Preserves.throw _
  | succ fuel ih =>
    refine Preserves.bind Preserves.get fun h => Preserves.ite (Preserves.pure _) ?_
    refine Preserves.bind (sendRange_steady _ _) fun sent => ?_
    -- the rest of a round, whether or not anything was sent
    have hrest : Steady (do
        let result ← getErrorState
        if result = .inProgress then sendLoop fuel result else return result) :=
      Preserves.bind getErrorState_steady fun _ => Preserves.ite (ih _) (Preserves.pure _)
    exact Preserves.ite (Preserves.bind (Steady.modifyPacket _) fun _ => hrest) hrest

/-- **Sending** a packet, whole or in as many rounds as it takes. -/
theorem send_steady : Steady send := by
  refine Preserves.bind Preserves.get fun h => Preserves.ite ?_ (Preserves.ite ?_ ?_)
  · exact Preserves.bind (Steady.modifyPacket _) fun _ => clearErrorState_steady
  · exact Preserves.bind (sendRange_steady _ _) fun _ => getErrorState_steady
  · have hloop : Steady (do
        let result ← sendLoop ((← MonadState.get).net.results.length + 1) .done
        modifyPacket Packet.sendReset
        return result) :=
      Preserves.bind Preserves.get fun _ => Preserves.bind (sendLoop_steady _ _) fun _ =>
        Preserves.bind (Steady.modifyPacket _) fun _ => Preserves.pure _
    refine Preserves.ite (Preserves.bind (sendRange_steady _ _) fun sent => ?_) hloop
    exact Preserves.ite (Preserves.bind (Steady.modifyPacket _) fun _ => hloop) hloop

/-- A datagram socket that receives has a buffer before and behind it. -/
theorem receiveDatagram_steady : Steady receiveDatagram := by
  intro h
  cases hd : h.socket.datagram with
  | none =>
    rw [receiveDatagram_null hd]
    rfl
  | some d =>
    rcases answers_cases (min datagramSize h.net.inbound.length) h.net.results with
      ⟨n, rest, hres, hn⟩ | ⟨e, rest, hres, he⟩ | hpending
    · rw [receiveDatagram_count hd hres hn]
      simp only [finalState_ok, afterDatagram, lasting, hd, Option.map_some]
    · rw [receiveDatagram_failure hd hres he]
      rfl
    · rw [receiveDatagram_pending hd hpending]
      rfl

/-- The datagram goes from the buffer to the packet, once it is found to be one. -/
theorem receiveDatagramPacket_steady (received : Int) :
    Steady (receiveDatagramPacket received) := by
  refine Preserves.ite getErrorState_steady (Preserves.bind (Steady.enforce _) fun _ => ?_)
  refine Preserves.bind Preserves.get fun h => ?_
  cases h.socket.datagram with
  | none => exact Preserves.throw _
  | some d =>
    refine Preserves.bind (Steady.enforce _) fun _ => Preserves.bind (Steady.onPacket _) fun _ => ?_
    refine Preserves.bind (Steady.onPacket _) fun _ => ?_
    refine Preserves.bind (Steady.modifyPacket _) fun _ => ?_
    exact Preserves.bind (Steady.onPacket _) fun _ => clearErrorState_steady

/-- The header goes to the packet, and so does the size that it announces. -/
theorem receiveHeader_steady : Steady receiveHeader := by
  refine Preserves.bind Preserves.get fun h => ?_
  -- the header is read, or there is one already
  have hread : ∀ {c : Prop} [Decidable c] {f : Int × List UInt8 → HostM Unit},
      (∀ x, Steady (f x)) → Steady (if c then receiveBytes packetlenSize >>= f else pure ()) :=
    fun hf => Preserves.ite (Preserves.bind (receiveBytes_steady _) hf) (Preserves.pure _)
  refine Preserves.ite (Preserves.bind (Steady.onPacket _) fun _ => hread fun _ => ?_)
    (hread fun _ => ?_)
  · exact Preserves.ite (Steady.modifyPacket _) (Preserves.pure _)
  · exact Preserves.ite (Steady.modifyPacket _) (Preserves.pure _)

theorem receiveBody_steady : Steady receiveBody := by
  refine Preserves.bind Preserves.get fun h => Preserves.bind (Steady.onPacket _) fun _ => ?_
  refine Preserves.bind (Steady.modifyPacket _) fun _ => Preserves.bind Preserves.get fun _ => ?_
  refine Preserves.bind (receiveRange_steady _ _) fun received => ?_
  have hlast : Steady (do
      if (← MonadState.get).packet.getRecvRemainder = 0 then modifyPacket Packet.recvReset
      getErrorState) := by
    refine Preserves.bind Preserves.get fun _ => Preserves.ite ?_ getErrorState_steady
    exact Preserves.bind (Steady.modifyPacket _) fun _ => getErrorState_steady
  exact Preserves.ite (Preserves.bind (Steady.modifyPacket _) fun _ => hlast) hlast

/-- **Receiving** a packet, as a datagram or from a stream. -/
theorem receive_steady : Steady receive := by
  refine Preserves.bind Preserves.get fun h => Preserves.ite ?_ ?_
  · exact Preserves.bind receiveDatagram_steady receiveDatagramPacket_steady
  · refine Preserves.bind receiveHeader_steady fun _ => Preserves.bind Preserves.get fun _ => ?_
    exact Preserves.ite getErrorState_steady receiveBody_steady

end Socket

/-! ## Datagrams with an address -/

namespace UdpSocket

open Socket

/-- The address of a datagram is an argument, and is not stored. -/
theorem sendTo_steady (inet : InetText) (address : Address) : Steady (sendTo inet address) := by
  refine Preserves.bind Preserves.get fun _ => Preserves.ite clearErrorState_steady ?_
  refine Preserves.bind (Steady.liftExcept _) fun _ => ?_
  refine Preserves.bind (Steady.modifyNet _) fun _ => Preserves.bind (sendRange_steady _ _) ?_
  exact fun _ => Preserves.ite getErrorState_steady clearErrorState_steady

/-- The address of its sender is returned, and is not stored either. -/
theorem receiveFrom_steady (inet : InetText) : Steady (receiveFrom inet) := by
  refine Preserves.bind receiveDatagram_steady fun received => ?_
  have hrest : ∀ address : Option Address,
      Steady (do return (← receiveDatagramPacket received, address)) :=
    fun _ => Preserves.bind (receiveDatagramPacket_steady _) fun _ => Preserves.pure _
  refine Preserves.ite (Preserves.bind (Preserves.pure _) hrest) ?_
  refine Preserves.bind Preserves.get fun _ => Preserves.bind ?_ hrest
  exact Preserves.bind (Steady.liftExcept _) fun _ => Preserves.pure _

end UdpSocket

/-! ## Buffers -/

namespace TcpSocket

open Socket

/-- The same of a program on a host and a buffer. -/
abbrev SteadyHost {α : Type} (m : ExchangeM α) : Prop :=
  Preserves (fun x : Exchange => x.host.socket.lasting) m

/-- What is steady on a host is so on a host and a buffer. -/
theorem onHost_steady {α : Type} {m : HostM α} (h : Steady m) : SteadyHost (onHost m) :=
  Preserves.zoom h fun _ _ => rfl

theorem sendFrom_steady (pos length : Int) : SteadyHost (sendFrom pos length) := by
  refine Preserves.bind (onHost_steady (Steady.modifyNet _)) fun _ => ?_
  refine Preserves.bind (onHost_steady (nativeCall_steady _)) fun _ => ?_
  refine Preserves.bind Preserves.get fun _ => ?_
  exact Preserves.bind (onHost_steady (Steady.modifyNet _)) fun _ => Preserves.pure _

/-- The bytes that arrive go to the buffer. -/
theorem receiveTo_steady (pos length : Int) : SteadyHost (receiveTo pos length) := by
  refine Preserves.bind (onHost_steady (Steady.modifyNet _)) fun _ => ?_
  refine Preserves.bind (onHost_steady (receiveBytes_steady _)) fun _ => ?_
  exact Preserves.bind (Preserves.modify fun _ => rfl) fun _ => Preserves.pure _

/-- The loop of `send_all` and `receive_all` is as steady as the transfers it makes. -/
theorem transferLoop_steady {transfer : Int → Int → ExchangeM Int}
    (h : ∀ pos length, SteadyHost (transfer pos length)) (length : Int) (fuel : ℕ) (total : Int) :
    SteadyHost (transferLoop transfer length fuel total) := by
  induction fuel generalizing total with
  | zero => exact Preserves.throw _
  | succ fuel ih =>
    refine Preserves.ite (Preserves.pure _) (Preserves.bind (h _ _) fun count => ?_)
    refine Preserves.ite (Preserves.pure _) (Preserves.ite ?_ (ih _))
    refine Preserves.bind (onHost_steady getErrorInst_steady) fun _ => ?_
    exact Preserves.ite (ih _) (Preserves.pure _)

/-- **Whole buffers** leave no trace in the socket, either. -/
theorem sendAll_steady (length : Int) : SteadyHost (sendAll length) :=
  Preserves.bind Preserves.get fun _ => transferLoop_steady sendFrom_steady _ _ _

theorem receiveAll_steady (length : Int) : SteadyHost (receiveAll length) :=
  Preserves.bind Preserves.get fun _ => transferLoop_steady receiveTo_steady _ _ _

end TcpSocket

namespace UdpSocket

open TcpSocket

theorem liftExcept_steady {α : Type} (x : Except Exception α) : SteadyHost (liftExcept x) := by
  cases x with
  | ok a => exact Preserves.pure a
  | error e => exact Preserves.throw _

/-- A datagram that is no packet. -/
theorem sendBytesTo_steady (inet : InetText) (length : Int) (address : Address) :
    SteadyHost (sendBytesTo inet length address) := by
  refine Preserves.bind (liftExcept_steady _) fun _ => ?_
  refine Preserves.bind (liftExcept_steady _) fun _ => ?_
  exact Preserves.bind (onHost_steady (Steady.modifyNet _)) fun _ => sendFrom_steady _ _

theorem receiveBytesFrom_steady (inet : InetText) (length : Int) :
    SteadyHost (receiveBytesFrom inet length) := by
  refine Preserves.bind (receiveTo_steady _ _) fun _ => Preserves.ite (Preserves.pure _) ?_
  refine Preserves.bind Preserves.get fun _ => ?_
  exact Preserves.bind (liftExcept_steady _) fun _ => Preserves.pure _

end UdpSocket

end Sws
