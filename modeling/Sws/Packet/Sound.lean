import Sws.Packet.Operations
import Sws.Socket.Effect

/-!
# The Class Invariant

What every packet built by public operations satisfies, exceptions and moves included: the
buffer and the cursors keep to the limits of the class, no send is under way, and a receive
that is has announced its size.

## Key Results

- `sound_apply`: every operation keeps the invariant.
- `reachable_sound`: every reachable packet satisfies it.
-/

namespace Sws.Packet

open Sws.Foundation
open Socket (Idle Awaiting Progress Overflow Delivered)

/-! ## The invariant -/

/-- No frame is being received, or one of an announced size is. -/
def Receiving (p : Packet) : Prop :=
  (p.recvPos = -1 ∧ p.recvTarget = -1) ∨
  ((0 < p.recvTarget ∧ p.recvTarget ≤ 65535) ∧
    (p.recvPos = -1 ∨ (2 ≤ p.recvPos ∧ p.recvPos < p.recvTarget + 2)))

/-- The class invariant, with what is known of the read cursor as a parameter. -/
structure Sound (R : Int → Prop) (p : Packet) : Prop where
  inLimits : p.InLimits
  readPos : R p.readPos
  sendPos : p.sendPos = -1
  receiving : p.Receiving

/-- What can be known of the read cursor: the limits of the class allow it, and reading on
inside them keeps it. -/
structure ReadRange (R : Int → Prop) : Prop where
  inside : ∀ pos : Int, 2 ≤ pos ∧ pos ≤ datagramSize → R pos
  advance : ∀ pos (k : ℕ), R pos → pos + k ≤ datagramSize → R (pos + k)

/-- The read cursor keeps to the limits of the class. -/
def InRange (pos : Int) : Prop := 2 ≤ pos ∧ pos ≤ datagramSize

theorem readRange_inRange : ReadRange InRange where
  inside _ h := h
  advance pos k h hle := ⟨by have := h.1; omega, hle⟩

/-- Nothing is known of the read cursor. -/
theorem readRange_anywhere : ReadRange fun _ => True where
  inside _ _ := trivial
  advance _ _ _ _ := trivial

theorem sound_fresh : Sound InRange fresh where
  inLimits := inLimits_cleared {}
  readPos := by simp [fresh, InRange, datagramSize]
  sendPos := rfl
  receiving := .inl ⟨rfl, rfl⟩

namespace Sound

variable {R : Int → Prop} {p q : Packet} {n : ℕ}

theorem rebuilt (hp : Sound R p) (hq : Rebuilt p q n) (hn : n ≤ datagramSize) : Sound R q where
  inLimits := ⟨by rw [hq.length_eq]; exact hn, hq.writePos⟩
  readPos := by rw [hq.readPos]; exact hp.readPos
  sendPos := by rw [hq.sendPos]; exact hp.sendPos
  receiving := by rw [Receiving, hq.recvPos, hq.recvTarget]; exact hp.receiving

theorem cleared (hR : ReadRange R) (hp : Sound R p) : Sound R p.cleared where
  inLimits := inLimits_cleared p
  readPos := hR.inside 2 ⟨Int.le_refl 2, by simp [datagramSize]⟩
  sendPos := hp.sendPos
  receiving := hp.receiving

theorem movedFrom (hp : Sound R p) : Sound R p.movedFrom where
  inLimits := ⟨by simp [Packet.movedFrom, sendReset, recvReset], hp.inLimits.2⟩
  readPos := hp.readPos
  sendPos := rfl
  receiving := .inl ⟨rfl, rfl⟩

theorem delivered (hR : ReadRange R) (hp : Sound R p) (hq : Delivered p q) : Sound R q := by
  obtain ⟨bytes, -, hlen, rfl⟩ := hq
  have hcleared := hp.cleared hR
  refine ⟨⟨hlen, ?_⟩, hcleared.readPos, hp.sendPos, hp.receiving⟩
  -- the write cursor stands behind the datagram
  show (0 : Int) ≤ bytes.length ∧ (bytes.length : Int) ≤ datagramSize
  omega

/-- A packet with the invariant is between two frames or awaits a payload. -/
theorem idle_or_awaiting (hp : Sound R p) :
    Idle p ∨ ∃ t : ℕ, p.recvTarget = t ∧ 0 < t ∧ t ≤ 65535 := by
  rcases hp.receiving with ⟨hpos, htarget⟩ | ⟨htarget, -⟩
  · exact .inl ⟨by omega, by omega⟩
  · exact .inr ⟨p.recvTarget.toNat, by omega, by omega, by omega⟩

theorem awaiting (hR : ReadRange R) (hp : Sound R p) {t : ℕ} (hq : Awaiting p q t) : Sound R q := by
  cases hq with
  | announced hidle ht =>
    refine ⟨inLimits_cleared p, (hp.cleared hR).readPos, hp.sendPos, .inr ⟨?_, .inl ?_⟩⟩
    · show (0 : Int) < t ∧ (t : Int) ≤ 65535
      omega
    · -- an idle packet has no progress
      rcases hp.receiving with ⟨hpos, -⟩ | ⟨htarget, -⟩
      · exact hpos
      · exact absurd hidle.2 (by omega)
  | resumed ht hpos => exact hp

theorem framed (hp : Sound R p) {t : ℕ} (ht : p.recvTarget = t) (hpos : 0 < t)
    (hfits : Socket.Fits p t) : Sound R (Socket.framed p t) where
  inLimits := by
    refine ⟨?_, hp.inLimits.2⟩
    rw [Socket.length_framed hfits]
    exact Nat.le_of_lt hfits.1
  readPos := hp.readPos
  sendPos := hp.sendPos
  receiving := by
    refine .inr ⟨?_, .inr ?_⟩
    · show 0 < p.recvTarget ∧ p.recvTarget ≤ 65535
      have hlt := hfits.1
      simp only [datagramSize] at hlt
      omega
    · show (2 : Int) ≤ 2 ∧ (2 : Int) < p.recvTarget + 2
      omega

theorem received (hp : Sound R p) {t : ℕ} (ht : p.recvTarget = t) (hpos : 0 < t)
    (hfits : Socket.Fits p t) {bytes : List UInt8} (hlen : bytes.length ≤ t) :
    Sound R (Socket.received p t bytes) := by
  have hframed := hp.framed ht hpos hfits
  refine ⟨⟨?_, hp.inLimits.2⟩, hp.readPos, hp.sendPos, ?_⟩
  · rw [Socket.length_received hfits hlen]
    exact Nat.le_of_lt hfits.1
  · -- a whole payload ends the receive
    rcases Nat.lt_or_ge bytes.length t with hshort | hall
    · have hne : bytes.length ≠ t := by omega
      refine .inr ⟨?_, .inr ?_⟩
      · simp only [Socket.received, if_neg hne]
        have hlt := hfits.1
        simp only [datagramSize] at hlt
        omega
      · simp only [Socket.received, if_neg hne]
        omega
    · have heq : bytes.length = t := by omega
      exact .inl ⟨by simp only [Socket.received, if_pos heq],
        by simp only [Socket.received, if_pos heq]⟩

theorem progress (hR : ReadRange R) (hp : Sound R p) (hq : Progress p q) : Sound R q := by
  cases hq with
  | cleared hidle => exact hp.cleared hR
  | framed hq hfits =>
    obtain ⟨ht, hpos, -⟩ := hq.recvTarget
    exact (hp.awaiting hR hq).framed ht hpos hfits
  | received hq hfits hlen =>
    obtain ⟨ht, hpos, -⟩ := hq.recvTarget
    exact (hp.awaiting hR hq).received ht hpos hfits hlen

theorem overflow (hR : ReadRange R) (hp : Sound R p) (hq : Overflow p q) : Sound R q := by
  obtain ⟨hq, -, hr⟩ := hq
  exact (hp.awaiting hR hq).rebuilt hr (clampSize_mem _).2

end Sound

/-! ## The operations keep it -/

/-- A socket's program from a host whose packet satisfies an assertion. -/
theorem ensures_hosted {α : Type} {socket : Socket} {net : Net} {m : HostM α}
    {P : Packet → Prop} {Q : α → Packet → Prop} {E : Fault → Packet → Prop}
    (h : Ensures (fun h => P h.packet ∧ h.socket = socket) m (fun a h => Q a h.packet)
      (fun e h => E e h.packet)) : Ensures P (hosted socket net m) Q E := by
  refine ⟨fun p hp => ?_⟩
  have hend := h.run ⟨socket, p, net⟩ ⟨hp, rfl⟩
  unfold hosted
  cases hrun : m ⟨socket, p, net⟩ with
  | ok a h' =>
    rw [hrun] at hend
    exact hend
  | error e h' =>
    rw [hrun] at hend
    exact hend

/-- On a datagram socket a receive is that of a datagram. -/
theorem hosted_receive_udp {socket : Socket} {net : Net} (hudp : socket.protocol = .udp) :
    hosted socket net Socket.receive =
      hosted socket net (do Socket.receiveDatagramPacket (← Socket.receiveDatagram)) := by
  funext p
  have hrun := Socket.receive_udp (h := ⟨socket, p, net⟩) hudp
  simp only [hosted]
  rw [show Socket.receive ⟨socket, p, net⟩ = _ from hrun]
  rfl

section Operations

variable {R : Int → Prop} (hR : ReadRange R)

/-- The program keeps the class invariant, also when it throws or its behaviour is undefined:
whenever it ends. -/
def KeepsSound {α : Type} (R : Int → Prop) (m : PacketM α) : Prop :=
  Ensures (Sound R) m (fun _ => Sound R) (fun e p => e ≠ .pending → Sound R p)

include hR

theorem sound_readData (size : ℕ) (whole : Bool) : KeepsSound R (readData size whole) := by
  refine Ensures.of_eq fun p hp => ?_
  rcases readData_cases size whole p with hrun | ⟨k, hk, hrun⟩ | hrun
  · exact Ensures.of_ok hrun hp
  · have hlen := hp.inLimits.1
    refine Ensures.of_ok hrun ⟨hp.inLimits, ?_, hp.sendPos, hp.receiving⟩
    -- the read cursor stays in the buffer, and so inside the limits
    exact hR.advance _ k hp.readPos (by omega)
  · exact Ensures.of_error hrun fun _ => hp

omit hR in
theorem sound_writeData (bytes : List UInt8) (whole : Bool) :
    KeepsSound R (writeData bytes whole) := by
  refine Ensures.of_eq fun p hp => ?_
  -- whichever way it ends, only the buffer and the write cursor have changed
  have hlen : p.lengthAfter bytes.length whole ≤ datagramSize := lengthAfter_le hp.inLimits ..
  refine (writeData_rebuilds hp.inLimits bytes whole).weaken (fun _ h => h) ?_ ?_
  · intro _ q hq
    exact hp.rebuilt hq hlen
  · rintro e q (hstrays | hq) _
    · exact hp.rebuilt (hstrays.rebuilt hp.inLimits) (by have := hp.inLimits.2; omega)
    · exact hp.rebuilt hq.2 hlen

omit hR in
theorem sound_resize (size : ℕ) : KeepsSound R (resize size) := by
  refine Ensures.of_eq fun p hp => ?_
  refine (resize_rebuilds hp.inLimits size).weaken (fun _ h => h) ?_ ?_
  · intro _ q hq
    exact hp.rebuilt hq (clampSize_mem size).2
  · intro e q hq _
    exact hp.rebuilt hq.2 (clampSize_mem size).2

theorem sound_clear : KeepsSound R clear := by
  refine Ensures.of_eq fun p hp => ?_
  exact Ensures.of_ok (clear_run p) (hp.cleared hR)

/-- A seek of the read cursor; the payload's size does not depend on it. -/
theorem sound_onReadPos {n : ℕ} (hn : n + 2 ≤ datagramSize) (type : SeekType) (value : Int64) :
    KeepsSound R (onReadPos (seekImpl n type value)) := by
  refine Ensures.of_eq fun p hp => ?_
  have hsize : n < 2 ^ 62 := by simp only [datagramSize] at hn; omega
  refine (Ensures.zoom (seekImpl_effect hsize type value p.readPos)).weaken (fun _ h => h) ?_ ?_
  · rintro _ q ⟨pos, hpos, rfl⟩
    exact ⟨hp.inLimits, hR.inside pos (by omega), hp.sendPos, hp.receiving⟩
  · rintro e q ⟨pos, ⟨rfl, -⟩, rfl⟩ _
    exact hp

omit hR in
theorem sound_onWritePos {n : ℕ} (hn : n + 2 ≤ datagramSize) (type : SeekType) (value : Int64) :
    KeepsSound R (onWritePos (seekImpl n type value)) := by
  refine Ensures.of_eq fun p hp => ?_
  have hsize : n < 2 ^ 62 := by simp only [datagramSize] at hn; omega
  refine (Ensures.zoom (seekImpl_effect hsize type value p.writePos)).weaken (fun _ h => h) ?_ ?_
  · rintro _ q ⟨pos, hpos, rfl⟩
    have hlimits : (0 : Int) ≤ pos ∧ pos ≤ datagramSize := by omega
    exact ⟨⟨hp.inLimits.1, hlimits⟩, hp.readPos, hp.sendPos, hp.receiving⟩
  · rintro e q ⟨pos, ⟨rfl, -⟩, rfl⟩ _
    exact hp

theorem sound_seek (cursor : SeekCursor) (type : SeekType) (value : Int64) :
    KeepsSound R (seek cursor type value) := by
  refine Ensures.get_bind fun p hp => ?_
  -- both cursors are sought in a payload of the size at the start
  have hsize : p.workSize + 2 ≤ datagramSize := by
    have hlen := hp.inLimits.1
    rw [workSize_eq]
    simp only [datagramSize] at hlen ⊢
    omega
  refine Ensures.weaken (P := Sound R) ?_ (fun q hq => hq ▸ hp) (fun _ _ h => h) (fun _ _ h => h)
  cases cursor with
  | read => exact sound_onReadPos hR hsize type value
  | write => exact sound_onWritePos hsize type value
  | both =>
    exact Ensures.bind (sound_onReadPos hR hsize type value) fun _ =>
      sound_onWritePos hsize type value

omit hR in
theorem sound_send (socket : Socket) (net : Net) :
    KeepsSound R (hosted socket net Socket.send) := by
  refine Ensures.of_eq fun p hp => ensures_hosted ?_
  -- a send that does not return is not seen by a caller
  refine (Socket.send_effect hp.sendPos).weaken (fun _ h => h.1) ?_ ?_
  · rintro _ h rfl
    exact hp
  · rintro e h ⟨rfl, -⟩ hpending
    exact absurd rfl hpending

omit hR in
theorem sound_sendTo (inet : InetText) (address : Address) (socket : Socket) (net : Net) :
    KeepsSound R (hosted socket net (UdpSocket.sendTo inet address)) := by
  refine Ensures.of_eq fun p hp => ensures_hosted ?_
  refine (Socket.sendTo_effect p inet address).weaken (fun _ h => h.1) ?_ ?_
  · rintro _ h rfl
    exact hp
  · rintro e h rfl _
    exact hp

/-- A datagram replaces the packet or leaves it. -/
theorem sound_of_datagram {α : Type} {socket : Socket} {net : Net} {m : HostM α}
    (hm : ∀ p, Ensures (fun h => h.packet = p) m
      (fun _ h => h.packet = p ∨ Delivered p h.packet) (fun _ h => h.packet = p)) :
    KeepsSound R (hosted socket net m) := by
  refine Ensures.of_eq fun p hp => ensures_hosted ((hm p).weaken (fun _ h => h.1) ?_ ?_)
  · rintro _ h (rfl | hdelivered)
    · exact hp
    · exact hp.delivered hR hdelivered
  · rintro e h rfl _
    exact hp

theorem sound_receive (socket : Socket) (net : Net) :
    KeepsSound R (hosted socket net Socket.receive) := by
  rcases Classical.em (socket.protocol = .udp) with hudp | htcp
  · rw [hosted_receive_udp hudp]
    exact sound_of_datagram hR Socket.receiveUdp_effect
  · refine Ensures.of_eq fun p hp => ensures_hosted ?_
    refine (Socket.receiveTcp_effect hp.inLimits hp.idle_or_awaiting).weaken ?_ ?_ ?_
    · rintro h ⟨hpacket, rfl⟩
      exact ⟨hpacket, htcp⟩
    · intro _ h hq
      exact hp.progress hR hq
    · rintro e h (⟨rfl, hq⟩ | ⟨-, hq⟩) _
      · exact hp.progress hR hq
      · exact hp.overflow hR hq

/-- Every operation keeps the class invariant. -/
theorem sound_apply (op : Operation) (hops : ∀ q ∈ op.operands, Sound R q) :
    KeepsSound R op.apply := by
  -- the result of an operation is dropped
  have hdone : ∀ {α : Type} {m : PacketM α}, KeepsSound R m → KeepsSound R (do let _ ← m) :=
    fun hm => Ensures.bind hm fun _ => Stable.pure ()
  cases op with
  | seek cursor type value => exact sound_seek hR cursor type value
  | readData size whole => exact hdone (sound_readData hR size whole)
  | writeData bytes whole => exact hdone (sound_writeData bytes whole)
  | resize size => exact sound_resize size
  | clear => exact @sound_clear R hR
  | shrinkToFit => exact Stable.pure ()
  | send socket net => exact hdone (sound_send socket net)
  | sendTo inet address socket net => exact hdone (sound_sendTo inet address socket net)
  | receive socket net => exact hdone (sound_receive hR socket net)
  | receiveFrom inet socket net =>
    exact hdone (sound_of_datagram hR fun p => Socket.receiveFrom_effect p inet)
  | moveOut => exact Ensures.modify fun _ hp => hp.movedFrom
  | assign packet => exact Ensures.set fun _ _ => hops packet (List.mem_singleton.mpr rfl)

end Operations

/-- One operation, whose exception, if any, is caught, keeps the class invariant. -/
theorem sound_step {p p' : Packet} {op : Operation} (hp : Sound InRange p)
    (hops : ∀ q ∈ op.operands, Sound InRange q) (hstep : Step p op p') : Sound InRange p' := by
  have hkeeps : Ensures (Sound InRange) op.apply (fun _ => Sound InRange)
      (fun e p => Caught e → Sound InRange p) := by
    refine (sound_apply readRange_inRange op hops).weaken (fun _ h => h) (fun _ _ h => h) ?_
    -- a caller sees no pending call
    intro e q hq hcaught
    apply hq
    rintro rfl
    exact not_caught_pending hcaught
  exact ensures_iff_leaves.mp hkeeps p p' hp hstep

/-- **The class invariant.** Every reachable packet satisfies it. -/
theorem reachable_sound {p : Packet} (hp : Reachable p) : Sound InRange p := by
  refine Generated.invariant ?_ (fun _ _ _ => sound_step) hp
  intro p hp
  rw [constructed_iff.mp hp]
  exact sound_fresh

end Sws.Packet
