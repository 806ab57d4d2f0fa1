import Sws.Socket.Spec

/-!
# What the Socket Operations Do to a Packet

Sending leaves a packet as it was.  A datagram replaces the packet or leaves it.  A frame from
a stream clears it, sizes its buffer, and puts what has arrived into the payload; or the
resize throws.

## Key Results

- `send_effect`, `sendTo_effect`: sending.
- `receiveUdp_effect`, `receiveFrom_effect`: datagrams.
- `receiveTcp_effect`: one call on a stream.
-/

namespace Sws.Socket

open Sws.Foundation
open Packet (Rebuilt)

/-! ## Programs that do not touch the packet -/

/-- The program keeps an assertion about the packet, and returns unless a native call does not. -/
def Keeps {α : Type} (P : Packet → Prop) (m : HostM α) : Prop :=
  Ensures (fun h => P h.packet) m (fun _ h => P h.packet)
    (fun e h => e = .pending ∧ P h.packet)

namespace Keeps

variable {α β : Type} {P : Packet → Prop}

theorem pure (a : α) : Keeps P (Pure.pure a) :=
  Ensures.pure fun _ hp => hp

theorem bind {m : HostM α} {f : α → HostM β} (hm : Keeps P m) (hf : ∀ a, Keeps P (f a)) :
    Keeps P (m >>= f) :=
  Ensures.bind hm hf

theorem get : Keeps P (MonadState.get : HostM Host) :=
  Ensures.get fun _ hp => hp

theorem ite {c : Prop} [Decidable c] {m m' : HostM α} (h : Keeps P m) (h' : Keeps P m') :
    Keeps P (if c then m else m') :=
  Ensures.ite (fun _ => h) (fun _ => h')

theorem pending : Keeps P (throw .pending : HostM α) :=
  Ensures.throw fun _ hp => ⟨rfl, hp⟩

theorem modifySocket (f : Socket → Socket) : Keeps P (Sws.modifySocket f) :=
  Ensures.modify fun _ hp => hp

theorem modifyNet (f : Net → Net) : Keeps P (Sws.modifyNet f) :=
  Ensures.modify fun _ hp => hp

theorem modifyPacket {f : Packet → Packet} (h : ∀ p, P p → P (f p)) :
    Keeps P (Sws.modifyPacket f) :=
  Ensures.modify fun _ hp => h _ hp

theorem nativeCall (limit : ℕ) : Keeps P (nativeCall limit) := by
  unfold Socket.nativeCall
  refine bind get fun h => ?_
  cases h.net.results with
  | nil => exact pending
  | cons r rest =>
    cases r with
    | failure e =>
      refine ite (c := e = .none) (bind pending fun _ => ?_) ?_
      · exact bind (modifyNet _) fun _ => pure _
      · exact bind (modifyNet _) fun _ => pure _
    | count n =>
      refine ite (c := n > limit) (bind pending fun _ => ?_) ?_
      · exact bind (modifyNet _) fun _ => pure _
      · exact bind (modifyNet _) fun _ => pure _

theorem sendRange (pos length : Int) : Keeps P (sendRange pos length) :=
  bind (modifyNet _) fun _ => bind (nativeCall _) fun _ => bind get fun _ =>
    bind (modifyNet _) fun _ => pure _

theorem receiveBytes (length : Int) : Keeps P (receiveBytes length) :=
  bind get fun _ => bind (nativeCall _) fun _ => bind (modifyNet _) fun _ => pure _

theorem getErrorState : Keeps P getErrorState :=
  bind (bind get fun _ => bind (modifySocket _) fun _ => pure _) fun _ => pure _

theorem clearErrorState : Keeps P clearErrorState :=
  bind (modifySocket _) fun _ => pure _

end Keeps

/-! ## Sending -/

/-- The loop moves the progress of the send and nothing else. -/
theorem keeps_sendLoop (q : Packet) (fuel : ℕ) (result : SocketState) :
    Keeps (fun p => p.sendReset = q) (sendLoop fuel result) := by
  induction fuel generalizing result with
  | zero => exact Keeps.pending
  | succ fuel ih =>
    refine Keeps.bind Keeps.get fun h => ?_
    refine Keeps.ite (Keeps.pure _) (Keeps.bind (Keeps.sendRange _ _) fun sent => ?_)
    -- a round changes the send position, and goes on or not
    have hround : Keeps (fun p => p.sendReset = q) (do
        let result ← getErrorState
        if result = .inProgress then sendLoop fuel result else return result) :=
      Keeps.bind Keeps.getErrorState fun state => Keeps.ite (ih state) (Keeps.pure _)
    exact Keeps.ite (Keeps.bind (Keeps.modifyPacket fun _ hp => hp) fun _ => hround) hround

/-- **Sending** leaves the packet as it was; a send that does not return has moved no more than
its progress. -/
theorem send_effect {p : Packet} (hp : p.sendPos = -1) :
    Ensures (fun h => h.packet = p) send (fun _ h => h.packet = p)
      (fun e h => e = .pending ∧ h.packet.sendReset = p) := by
  have hreset : p.sendReset = p := by rw [Packet.sendReset, ← hp]
  have hweaken : ∀ {α : Type} {m : HostM α}, Keeps (· = p) m →
      Ensures (fun h => h.packet = p) m (fun _ h => h.packet = p)
        (fun e h => e = .pending ∧ h.packet.sendReset = p) := by
    intro α m hm
    refine hm.weaken (fun _ h => h) (fun _ _ h => h) ?_
    rintro e h ⟨rfl, rfl⟩
    exact ⟨rfl, hreset⟩
  refine Ensures.bind (Q := fun _ h => h.packet = p) (Ensures.get fun _ h => h) fun h => ?_
  refine Ensures.ite (fun _ => ?_) fun _ => Ensures.ite (fun _ => ?_) fun _ => ?_
  · -- an empty packet
    apply hweaken
    refine Keeps.bind (Keeps.modifyPacket ?_) fun _ => Keeps.clearErrorState
    rintro q rfl
    exact hreset
  · -- a datagram
    apply hweaken
    exact Keeps.bind (Keeps.sendRange _ _) fun _ => Keeps.getErrorState
  · -- a stream: the progress moves until the end, which resets it
    have hrest : Ensures (fun h => h.packet.sendReset = p) (do
        let result ← sendLoop ((← get).net.results.length + 1) .done
        modifyPacket Packet.sendReset
        return result) (fun _ h => h.packet = p)
        (fun e h => e = .pending ∧ h.packet.sendReset = p) := by
      refine Ensures.bind (Q := fun _ h => h.packet.sendReset = p) (Ensures.get fun _ h => h)
        fun h' => ?_
      refine Ensures.bind (P := fun h : Host => h.packet.sendReset = p) (keeps_sendLoop p _ _)
        fun result => ?_
      exact Ensures.bind (Q := fun _ h => h.packet = p) (Ensures.modify fun _ h => h) fun _ =>
        Ensures.pure fun _ h => h
    refine Ensures.weaken (P := fun h => h.packet.sendReset = p) ?_ ?_ (fun _ _ h => h)
      (fun _ _ h => h)
    · refine Ensures.ite (fun _ => ?_) fun _ => hrest
      have hfirst : Keeps (fun q => q.sendReset = p) (sendRange 0 h.packet.data.length) :=
        Keeps.sendRange _ _
      refine Ensures.bind hfirst fun sent => Ensures.ite (fun _ => ?_) fun _ => hrest
      exact Ensures.bind (Q := fun _ h => h.packet.sendReset = p) (Ensures.modify fun _ h => h)
        fun _ => hrest
    · rintro h rfl
      exact hreset

/-- Sending to an address takes the packet as a constant. -/
theorem sendTo_effect (p : Packet) (inet : InetText) (address : Address) :
    Ensures (fun h => h.packet = p) (UdpSocket.sendTo inet address) (fun _ h => h.packet = p)
      (fun _ h => h.packet = p) := by
  -- the packet is the same whichever way the program ends
  have hweaken : ∀ {α : Type} {m : HostM α}, Keeps (· = p) m →
      Ensures (fun h => h.packet = p) m (fun _ h => h.packet = p) (fun _ h => h.packet = p) :=
    fun hm => hm.weaken (fun _ h => h) (fun _ _ h => h) fun _ _ h => h.2
  refine Ensures.bind (Q := fun _ h => h.packet = p) (Ensures.get fun _ h => h) fun h => ?_
  refine Ensures.ite (fun _ => hweaken Keeps.clearErrorState) fun _ => ?_
  refine Ensures.bind (Q := fun _ h => h.packet = p) ?_ fun native => hweaken ?_
  · -- a text that is no address throws
    cases address.toNative inet with
    | ok a => exact Ensures.pure fun _ h => h
    | error e => exact Ensures.throw fun _ h => h
  · refine Keeps.bind (Keeps.modifyNet _) fun _ => ?_
    refine Keeps.bind (Keeps.sendRange _ _) fun sent => ?_
    exact Keeps.ite Keeps.getErrorState Keeps.clearErrorState

/-! ## Datagrams -/

/-- `q` is made of a datagram that is a packet. -/
def Delivered (p q : Packet) : Prop :=
  ∃ bytes : List UInt8, Announces bytes bytes.length ∧ bytes.length ≤ datagramSize ∧
    q = delivered p bytes

/-- A datagram of the size that was received replaces the packet, or leaves it. -/
theorem receiveDatagramPacket_effect (p : Packet) (received : Int) :
    Ensures (fun h => h.packet = p ∧ -1 ≤ received ∧ received ≤ datagramSize)
      (receiveDatagramPacket received) (fun _ h => h.packet = p ∨ Delivered p h.packet)
      (fun _ h => h.packet = p) := by
  refine Ensures.of_eq fun h ⟨hp, hr⟩ => ?_
  rcases Classical.em (received = -1 ∨ received = 0) with hnone | hsome
  · -- nothing arrived
    have hrun := receiveDatagramPacket_ignored (h := h) hnone
    exact Ensures.of_ok (hrun.trans (getErrorState_run h)) (.inl hp)
  -- something arrived; it needs a buffer, and has to be a packet
  obtain ⟨n, rfl⟩ := Int.eq_ofNat_of_zero_le (show 0 ≤ received by omega)
  cases hd : h.socket.datagram with
  | none =>
    obtain ⟨e, hrun⟩ := receiveDatagramPacket_null hsome hd
    exact Ensures.of_error hrun hp
  | some d =>
    rcases Classical.em (Announces d.bytes n) with hannounces | hbad
    · have hn : n ≤ datagramSize := by omega
      have hsize := (announces_iff hn).mp hannounces
      have hlen : (d.bytes.take n).length = n := by rw [List.length_take, d.length_eq]; omega
      refine Ensures.of_ok (receiveDatagramPacket_accepted hd hannounces hn) (.inr ?_)
      refine ⟨d.bytes.take n, ?_, by omega, by rw [hp]⟩
      rw [hlen, announces_iff hn, List.take_take, Nat.min_eq_left hsize.1]
      exact hsize
    · obtain ⟨msg, hrun⟩ := receiveDatagramPacket_rejected hsome hd hbad
      exact Ensures.of_error hrun hp

/-- The native receive of a datagram does not touch the packet. -/
theorem receiveDatagram_effect (p : Packet) :
    Ensures (fun h => h.packet = p) receiveDatagram
      (fun received h => h.packet = p ∧ -1 ≤ received ∧ received ≤ datagramSize)
      (fun _ h => h.packet = p) := by
  refine Ensures.of_eq fun h hp => ?_
  cases hd : h.socket.datagram with
  | none => exact Ensures.of_error (receiveDatagram_null hd) hp
  | some d =>
    rcases answers_cases (min datagramSize h.net.inbound.length) h.net.results with
      ⟨n, rest, hres, hn⟩ | ⟨e, rest, hres, he⟩ | hpending
    · exact Ensures.of_ok (receiveDatagram_count hd hres hn) ⟨hp, by omega, by omega⟩
    · exact Ensures.of_ok (receiveDatagram_failure hd hres he)
        ⟨hp, by decide, by simp [datagramSize]⟩
    · exact Ensures.of_error (receiveDatagram_pending hd hpending) hp

/-- **Datagrams** that are packets replace the packet; anything else leaves it. -/
theorem receiveUdp_effect (p : Packet) :
    Ensures (fun h => h.packet = p) (do receiveDatagramPacket (← receiveDatagram))
      (fun _ h => h.packet = p ∨ Delivered p h.packet) (fun _ h => h.packet = p) :=
  Ensures.bind (receiveDatagram_effect p) (receiveDatagramPacket_effect p)

theorem receiveFrom_effect (p : Packet) (inet : InetText) :
    Ensures (fun h => h.packet = p) (UdpSocket.receiveFrom inet)
      (fun _ h => h.packet = p ∨ Delivered p h.packet) (fun _ h => h.packet = p) := by
  refine Ensures.bind (receiveDatagram_effect p) fun received => ?_
  -- with the address or without one
  have hrest : ∀ address : Option Address,
      Ensures (fun h => h.packet = p ∧ -1 ≤ received ∧ received ≤ datagramSize)
        (do return (← receiveDatagramPacket received, address))
        (fun _ h => h.packet = p ∨ Delivered p h.packet) (fun _ h => h.packet = p) :=
    fun address => Ensures.bind (receiveDatagramPacket_effect p received) fun _ =>
      Ensures.pure fun _ h => h
  refine Ensures.ite (fun _ => Ensures.bind (Ensures.pure fun _ h => h) hrest) fun _ => ?_
  refine Ensures.bind (Q := fun _ h => h.packet = p ∧ -1 ≤ received ∧ received ≤ datagramSize)
    (Ensures.get fun _ h => h) fun h => Ensures.bind ?_ hrest
  -- an address that cannot be converted throws before the datagram is looked at
  cases Address.fromNative inet h.net.source with
  | ok a => exact ⟨fun _ h => h⟩
  | error e => exact ⟨fun _ h => h.1⟩

/-! ## Frames of a stream -/

/-- `q` is the packet `p` when a payload of `t` bytes is about to be received into it. -/
inductive Awaiting (p : Packet) : Packet → ℕ → Prop
  /-- The header has just been received. -/
  | announced (hidle : Idle p) {t : ℕ} (ht : 0 < t ∧ t ≤ 65535) :
      Awaiting p { p.cleared with recvTarget := t } t
  /-- The header was received by an earlier call. -/
  | resumed {t : ℕ} (ht : p.recvTarget = t) (hpos : 0 < t ∧ t ≤ 65535) : Awaiting p p t

/-- What a call makes of the packet `p` if the buffer takes the payload. -/
inductive Progress (p : Packet) : Packet → Prop
  | cleared (hidle : Idle p) : Progress p p.cleared
  | framed {q : Packet} {t : ℕ} (hq : Awaiting p q t) (hfits : Fits q t) : Progress p (framed q t)
  | received {q : Packet} {t : ℕ} {bytes : List UInt8} (hq : Awaiting p q t) (hfits : Fits q t)
      (hlen : bytes.length ≤ t) : Progress p (received q t bytes)

/-- What a call makes of the packet `p` if the buffer does not. -/
inductive Overflow (p : Packet) : Packet → Prop
  | mk {q r : Packet} {t : ℕ} (hq : Awaiting p q t) (hfits : ¬Fits q t)
      (hr : Rebuilt q r (Packet.clampSize (t + 2))) : Overflow p r

section Frames

variable {p : Packet}

theorem Awaiting.inLimits {q : Packet} {t : ℕ} (hq : Awaiting p q t) (hp : p.InLimits) :
    q.InLimits := by
  cases hq with
  | announced hidle ht => exact Packet.inLimits_cleared p
  | resumed ht hpos => exact hp

theorem Awaiting.recvTarget {q : Packet} {t : ℕ} (hq : Awaiting p q t) :
    q.recvTarget = t ∧ 0 < t ∧ t ≤ 65535 := by
  cases hq with
  | announced hidle ht => exact ⟨rfl, ht⟩
  | resumed ht hpos => exact ⟨ht, hpos⟩

/-- The second half of a call. -/
theorem receiveBody_effect {q : Packet} {t : ℕ} (hq : Awaiting p q t) (hp : p.InLimits) :
    Ensures (fun h => h.packet = q) receiveBody (fun _ h => Progress p h.packet)
      (fun e h => (e = .pending ∧ Progress p h.packet) ∨ (Caught e ∧ Overflow p h.packet)) := by
  refine Ensures.of_eq fun h hh => ?_
  subst hh
  obtain ⟨ht, hpos, hlt⟩ := hq.recvTarget
  -- the resize does not throw if the payload fits
  rcases Classical.em (Fits h.packet t) with hfits | hfits
  · rcases answers_cases (min t h.net.inbound.length) h.net.results with
      ⟨n, rest, hres, hn⟩ | ⟨e, rest, hres, he⟩ | hpending
    · refine Ensures.of_ok ((receiveBody_count ht hfits hres hn).trans (getErrorState_run _)) ?_
      exact .received hq hfits (by rw [List.length_take]; omega)
    · refine Ensures.of_ok
        ((receiveBody_failure ht hfits hpos hres he).trans (getErrorState_run _)) ?_
      exact .framed hq hfits
    · exact Ensures.of_error (receiveBody_pending ht hfits hpending)
        (.inl ⟨rfl, .framed hq hfits⟩)
  · obtain ⟨e, r, hrun, hcaught, hrebuilt⟩ := receiveBody_throws ht hlt (hq.inLimits hp) hfits
    exact Ensures.of_error hrun (.inr ⟨hcaught, .mk hq hfits hrebuilt⟩)

/-- **Frames.** One call on a stream, for a packet that is idle or awaits a payload. -/
theorem receiveTcp_effect (hp : p.InLimits)
    (hstate : Idle p ∨ ∃ t : ℕ, p.recvTarget = t ∧ 0 < t ∧ t ≤ 65535) :
    Ensures (fun h => h.packet = p ∧ h.socket.protocol ≠ .udp) receive
      (fun _ h => Progress p h.packet)
      (fun e h => (e = .pending ∧ Progress p h.packet) ∨ (Caught e ∧ Overflow p h.packet)) := by
  refine Ensures.of_eq fun h ⟨hh, htcp⟩ => ?_
  subst hh
  -- a call that knows the size goes on with the payload
  have hbody : ∀ {h' : Host} {t : ℕ}, Awaiting h.packet h'.packet t →
      receiveHeader.run h = .ok () h' →
      Ensures (· = h) receive (fun _ h' => Progress h.packet h'.packet)
        (fun e h' => (e = .pending ∧ Progress h.packet h'.packet) ∨
          (Caught e ∧ Overflow h.packet h'.packet)) := by
    intro h' t hq hheader
    obtain ⟨ht, hpos, -⟩ := hq.recvTarget
    have hrun := receive_announced htcp hheader (by omega)
    exact Ensures.of_run_eq hrun (receiveBody_effect hq hp) rfl
  rcases hstate with hidle | ⟨t, ht, hpos⟩
  · -- the header is read first
    rcases answers_cases (min 2 h.net.inbound.length) h.net.results with
      ⟨n, rest, hres, hn⟩ | ⟨e, rest, hres, he⟩ | hpending
    · have hheader := receiveHeader_count hidle hres hn
      rcases Classical.em ((h.net.inbound.take n).length = 2 ∧ ofBytes (h.net.inbound.take n) > 0)
        with hsize | hsize
      · -- a size was announced
        refine hbody (t := ofBytes (h.net.inbound.take n)) ?_ hheader
        have hlt := ofBytes_lt (h.net.inbound.take n)
        rw [hsize.1] at hlt
        rw [afterHeader, announced, if_pos hsize]
        exact .announced hidle ⟨hsize.2, by omega⟩
      · rw [afterHeader, announced, if_neg hsize] at hheader
        have hrun := receive_unannounced htcp hheader (Int.le_of_lt hidle.2)
        exact Ensures.of_ok (hrun.trans (getErrorState_run _)) (.cleared hidle)
    · have hrun := receive_unannounced htcp (receiveHeader_failure hidle hres he)
        (Int.le_of_lt hidle.2)
      exact Ensures.of_ok (hrun.trans (getErrorState_run _)) (.cleared hidle)
    · exact Ensures.of_error (receive_of_error htcp (receiveHeader_pending hidle hpending))
        (.inl ⟨rfl, .cleared hidle⟩)
  · exact hbody (.resumed ht hpos) (receiveHeader_resuming (by omega))

end Frames

end Sws.Socket
