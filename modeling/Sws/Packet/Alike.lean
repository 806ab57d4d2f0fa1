import Sws.Foundation.Lockstep
import Sws.Packet.Operations

/-!
# Operations That Do Not See a Receive

The progress of a receive belongs to `Socket::receive` on a stream.  No other operation looks at
it: from two packets that differ in it alone, every other operation ends alike, and leaves packets
that again differ in it alone.

## Key Results

- `blind_readData`, `blind_writeData`, `blind_readString`, `blind_writeString`: reads and writes.
- `blind_send`, `blind_sendTo`: sending.
- `blind_receiveUdp`, `blind_receiveFrom`: receiving a datagram.
-/

namespace Sws.Packet

open Sws.Foundation

/-- The packet with another progress of a receive. -/
def withReceive (p : Packet) (pos target : Int) : Packet :=
  { p with recvPos := pos, recvTarget := target }

/-- The packets differ at most in the progress of a receive. -/
def Alike (p q : Packet) : Prop := ∃ pos target, q = p.withReceive pos target

/-- The program does not see the progress of a receive. -/
abbrev Blind {α : Type} (m : PacketM α) : Prop := Respects Alike m

namespace Alike

variable {p q : Packet}

theorem refl (p : Packet) : Alike p p := ⟨p.recvPos, p.recvTarget, rfl⟩

/-- What does not depend on the progress of a receive is the same of both packets. -/
theorem congr {α : Type} (h : Alike p q) (f : Packet → α)
    (hf : ∀ p pos target, f (p.withReceive pos target) = f p) :
    f p = f q := by
  obtain ⟨pos, target, rfl⟩ := h
  exact (hf p pos target).symm

/-- A change of the other members. -/
theorem map (h : Alike p q) (f : Packet → Packet)
    (hf : ∀ p pos target, f (p.withReceive pos target) =
      (f p).withReceive pos target) : Alike (f p) (f q) := by
  obtain ⟨pos, target, rfl⟩ := h
  exact ⟨pos, target, hf p pos target⟩

end Alike

/-! ## Rules -/

namespace Blind

variable {α : Type}

/-- A change that does not depend on the progress of a receive. -/
theorem modify {f : Packet → Packet}
    (hf : ∀ p pos target, f (p.withReceive pos target) =
      (f p).withReceive pos target) :
    Blind (MonadState.modifyGet fun p => ((), f p) : PacketM Unit) :=
  Lockstep.modify fun _ _ hpq => hpq.map f hf

/-- A program that takes its own packet, of which it sees the other members. -/
theorem get_bind {f : Packet → PacketM α} (hf : ∀ p, Blind (f p))
    (hblind : ∀ p pos target, f (p.withReceive pos target) = f p) : Blind (get >>= f) := by
  refine Lockstep.bind Lockstep.get ?_
  rintro p _ ⟨pos, target, rfl⟩
  rw [hblind]
  exact hf p

end Blind

/-! ## Raw reads and writes -/

section Raw

/-- A read looks at the bytes and at the read cursor. -/
theorem blind_readData (size : ℕ) (whole : Bool) : Blind (readData size whole) := by
  refine Lockstep.bind Lockstep.get ?_
  rintro p _ ⟨pos, target, rfl⟩
  refine Lockstep.ite Iff.rfl (Lockstep.pure rfl) ?_
  refine Lockstep.ite Iff.rfl (Lockstep.pure rfl) ?_
  refine Lockstep.ite Iff.rfl (Lockstep.throw_bind _ _ _) ?_
  exact Lockstep.bind (Lockstep.set ⟨pos, target, rfl⟩) fun _ _ _ => Lockstep.pure rfl

/-- A write looks at the bytes and at the write cursor, and so does what it does to the header. -/
theorem blind_writeDataWith {updateSize : PacketM Unit} (hu : Blind updateSize)
    (bytes : List UInt8) (whole : Bool) : Blind (writeDataWith updateSize bytes whole) := by
  refine Lockstep.bind Lockstep.get ?_
  rintro p _ ⟨pos, target, rfl⟩
  refine Lockstep.ite Iff.rfl (Lockstep.pure rfl) ?_
  refine Lockstep.ite Iff.rfl (Lockstep.pure rfl) ?_
  -- room is made before the byte at the write cursor is referred to
  refine Lockstep.bind (Lockstep.set ⟨pos, target, rfl⟩) fun _ _ _ => ?_
  refine Lockstep.ite Iff.rfl (Lockstep.throw_bind _ _ _) ?_
  refine Lockstep.bind (Lockstep.set ⟨pos, target, rfl⟩) fun _ _ _ => ?_
  exact Lockstep.ite Iff.rfl (Lockstep.bind hu fun _ _ _ => Lockstep.pure rfl) (Lockstep.pure rfl)

theorem blind_writeEnforcedWith {updateSize : PacketM Unit} (hu : Blind updateSize)
    (bytes : List UInt8) : Blind (writeEnforcedWith updateSize bytes) :=
  .bind (blind_writeDataWith hu bytes true) fun _ => respects_enforce _ _

theorem blind_onReadPos (seek : EStateM Fault Int Unit) : Blind (onReadPos seek) :=
  Lockstep.zoom (Lockstep.refl seek) (fun _ _ hpq => hpq.congr readPos fun _ _ _ => rfl)
    fun t _ _ _ ht hpq => ht ▸ hpq.map (fun p => { p with readPos := t }) fun _ _ _ => rfl

theorem blind_onWritePos (seek : EStateM Fault Int Unit) : Blind (onWritePos seek) :=
  Lockstep.zoom (Lockstep.refl seek) (fun _ _ hpq => hpq.congr writePos fun _ _ _ => rfl)
    fun t _ _ _ ht hpq => ht ▸ hpq.map (fun p => { p with writePos := t }) fun _ _ _ => rfl

/-- Cursors are moved from where they are, or from the ends of the buffer. -/
theorem blind_seek (cursor : SeekCursor) (type : SeekType) (value : Int64) :
    Blind (seek cursor type value) := by
  refine Blind.get_bind (fun p => ?_) fun _ _ _ => rfl
  cases cursor with
  | read => exact blind_onReadPos _
  | write => exact blind_onWritePos _
  | both => exact .bind (blind_onReadPos _) fun _ => blind_onWritePos _

/-- The header is made of the size of the buffer. -/
theorem blind_updateSize : Blind updateSize := by
  refine Blind.get_bind (fun p => ?_) fun _ _ _ => rfl
  -- the header, written at 0, and a seek back to where the cursor was
  refine .bind (Blind.modify fun _ _ _ => rfl) fun _ => ?_
  refine Blind.get_bind (fun q => ?_) fun _ _ _ => rfl
  exact .bind (blind_writeEnforcedWith (.pure ()) _) fun _ => blind_seek _ _ _

theorem blind_writeData (bytes : List UInt8) (whole : Bool) : Blind (writeData bytes whole) :=
  blind_writeDataWith blind_updateSize bytes whole

/-- To change the size does not touch a receive. -/
theorem blind_resize (size : ℕ) : Blind (resize size) :=
  .bind (Blind.modify fun _ _ _ => rfl) fun _ => blind_updateSize

theorem blind_clear : Blind clear :=
  .bind (Blind.modify fun _ _ _ => rfl) fun _ => blind_resize _

end Raw

/-! ## Typed reads and writes -/

section Typed

/-- A value is read like other bytes, and an incomplete one is refused. -/
theorem blind_readEnforced (t : ScalarType) : Blind (readEnforced t) :=
  .bind (blind_readData _ _) fun _ => .bind (respects_enforce _ _) fun _ => .pure _

theorem blind_writeEnforced (bytes : List UInt8) : Blind (writeEnforced bytes) :=
  blind_writeEnforcedWith blind_updateSize bytes

/-- What a decoder makes of the bytes does not depend on more than them. -/
theorem blind_extract (t : ScalarType) : Blind (extract t) := by
  cases t with
  | bool =>
    exact .bind (blind_readEnforced _) fun _ =>
      .bind (respects_enforce _ _) fun _ => .pure _
  | char | int8 | uint8 | int16 | uint16 | int32 | uint32 | int64 | uint64 | float | double =>
    exact blind_readEnforced _

/-- Values are written like other bytes. -/
theorem blind_insert (t : ScalarType) (v : t.Val) : Blind (insert t v) := by
  cases t <;> exact blind_writeEnforced _

theorem blind_stringFromPointer (memory : List UInt8) (pos count : ℕ) :
    Blind (stringFromPointer memory pos count) :=
  .ite (Lockstep.throw_bind _ _ _) (.ite (Lockstep.throw_bind _ _ _) (.pure _))

/-- **Strings** are read as a length and as many characters. -/
theorem blind_readString (beyond : List UInt8) : Blind (readString beyond) := by
  -- the length, the characters, and the string made of them
  refine .bind (blind_readData _ _) fun bytes => .ite (.pure _) ?_
  refine .bind (respects_enforce _ _) fun _ => .bind (blind_readData _ _) fun temp => ?_
  refine .ite (.pure _) ?_
  exact .bind (blind_stringFromPointer _ _ _) fun _ => .pure _

theorem blind_extractString (beyond : List UInt8) : Blind (extractString beyond) :=
  .bind (blind_readString beyond) fun _ => .bind (respects_enforce _ _) fun _ => .pure _

/-- They are written so, too, whichever operand comes first. -/
theorem blind_writeString (order : EvalOrder) (s : List UInt8) : Blind (writeString order s) := by
  refine .bind (respects_enforce _ _) fun _ => ?_
  -- both orders make the same two writes
  cases order with
  | leftFirst =>
    refine .bind (blind_writeData _ _) fun _ => .bind (blind_writeData _ _) fun _ => ?_
    exact .bind (.pure _) fun _ => .bind (respects_enforce _ _) fun _ => .pure _
  | rightFirst =>
    refine .bind (blind_writeData _ _) fun _ => .bind (blind_writeData _ _) fun _ => ?_
    exact .bind (.pure _) fun _ => .bind (respects_enforce _ _) fun _ => .pure _

/-- The packet that is written is an argument. -/
theorem blind_writePacket (packet : Packet) : Blind (writePacket packet) :=
  .ite (.pure _) (.ite (Lockstep.throw_bind _ _ _) (blind_writeData _ _))

theorem blind_insertPacket (packet : Packet) : Blind (insertPacket packet) :=
  .bind (blind_writePacket packet) fun _ => respects_enforce _ _

theorem blind_insertSelf : Blind insertSelf := by
  refine Blind.get_bind (fun p => ?_) fun _ _ _ => rfl
  -- the packet that is written is the one that is written to
  refine .bind (blind_writePacket p) fun _ => ?_
  exact Blind.get_bind (fun q => respects_enforce _ _) fun _ _ _ => rfl

end Typed

/-! ## Calls on a socket -/

/-- The hosts differ at most in the progress of the packet's receive. -/
def AlikeHosts (h h' : Host) : Prop :=
  ∃ pos target, h' = { h with packet := h.packet.withReceive pos target }

/-- The program on a host does not see the progress of a receive. -/
abbrev BlindHosted {α : Type} (m : HostM α) : Prop := Respects AlikeHosts m

namespace BlindHosted

variable {α : Type}

/-- A program that takes its own host, of which it sees the rest. -/
theorem get_bind {f : Host → HostM α} (hf : ∀ h, BlindHosted (f h))
    (hblind : ∀ h pos target,
      f { h with packet := h.packet.withReceive pos target } = f h) : BlindHosted (get >>= f) := by
  refine Lockstep.bind Lockstep.get ?_
  rintro h _ ⟨pos, target, rfl⟩
  rw [hblind]
  exact hf h

/-- The socket and the native side are the same on both hosts. -/
theorem modifySocket (f : Socket → Socket) : BlindHosted (Sws.modifySocket f) := by
  refine Lockstep.modify ?_
  rintro h _ ⟨pos, target, rfl⟩
  exact ⟨pos, target, rfl⟩

theorem modifyNet (f : Net → Net) : BlindHosted (Sws.modifyNet f) := by
  refine Lockstep.modify ?_
  rintro h _ ⟨pos, target, rfl⟩
  exact ⟨pos, target, rfl⟩

/-- A change of the packet that does not depend on the progress of a receive. -/
theorem modifyPacket {f : Packet → Packet}
    (hf : ∀ p pos target, f (p.withReceive pos target) = (f p).withReceive pos target) :
    BlindHosted (Sws.modifyPacket f) := by
  refine Lockstep.modify ?_
  rintro h _ ⟨pos, target, rfl⟩
  exact ⟨pos, target, congrArg (fun p => { h with packet := p }) (hf h.packet pos target)⟩

/-- A blind program on the packet is blind on the host. -/
theorem onPacket {m : PacketM α} (hm : Blind m) : BlindHosted (Sws.onPacket m) := by
  refine Lockstep.zoom hm ?_ ?_
  · rintro h _ ⟨pos, target, rfl⟩
    exact ⟨pos, target, rfl⟩
  · rintro p _ h _ ⟨pos, target, rfl⟩ ⟨pos', target', rfl⟩
    exact ⟨pos, target, rfl⟩

end BlindHosted

section Hosted

open Socket

/-- A native call looks at no packet. -/
theorem blind_nativeCall (limit : ℕ) : BlindHosted (nativeCall limit) := by
  refine BlindHosted.get_bind (fun h => ?_) fun _ _ _ => rfl
  cases h.net.results with
  | nil => exact .throw _
  | cons r rest =>
    cases r with
    | failure e =>
      refine .ite (c := e = .none) (Lockstep.throw_bind _ _ _) ?_
      exact .bind (BlindHosted.modifyNet _) fun _ => .pure _
    | count n =>
      refine .ite (c := n > limit) (Lockstep.throw_bind _ _ _) ?_
      exact .bind (BlindHosted.modifyNet _) fun _ => .pure _

/-- What is sent are bytes of the packet. -/
theorem blind_sendRange (pos length : Int) : BlindHosted (sendRange pos length) := by
  refine .bind (BlindHosted.modifyNet _) fun _ => ?_
  refine .bind (blind_nativeCall _) fun sent => ?_
  refine BlindHosted.get_bind (fun h => ?_) fun _ _ _ => rfl
  exact .bind (BlindHosted.modifyNet _) fun _ => .pure _

theorem blind_receiveBytes (length : Int) : BlindHosted (receiveBytes length) := by
  refine BlindHosted.get_bind (fun h => ?_) fun _ _ _ => rfl
  refine .bind (blind_nativeCall _) fun received => ?_
  exact .bind (BlindHosted.modifyNet _) fun _ => .pure _

theorem blind_getErrorState : BlindHosted getErrorState := by
  refine .bind ?_ fun _ => .pure _
  refine BlindHosted.get_bind (fun h => ?_) fun _ _ _ => rfl
  exact .bind (BlindHosted.modifySocket _) fun _ => .pure _

theorem blind_clearErrorState : BlindHosted clearErrorState :=
  .bind (BlindHosted.modifySocket _) fun _ => .pure _

/-- The rounds of a send go by the send cursor. -/
theorem blind_sendLoop (fuel : ℕ) (result : SocketState) :
    BlindHosted (sendLoop fuel result) := by
  induction fuel generalizing result with
  | zero => exact .throw _
  | succ fuel ih =>
    refine BlindHosted.get_bind (fun h => ?_) fun _ _ _ => rfl
    refine .ite (.pure _) ?_
    refine .bind (blind_sendRange _ _) fun sent => ?_
    have hrest : BlindHosted (do
        let result ← getErrorState
        if result = .inProgress then sendLoop fuel result else return result) :=
      .bind blind_getErrorState fun result =>
        .ite (ih result) (.pure _)
    refine .ite ?_ hrest
    exact .bind (BlindHosted.modifyPacket fun _ _ _ => rfl) fun _ => hrest

/-- **Sending** a packet on a stream or as a datagram. -/
theorem blind_send : BlindHosted send := by
  refine BlindHosted.get_bind (fun h => ?_) fun _ _ _ => rfl
  refine .ite ?_ (.ite ?_ ?_)
  · exact .bind (BlindHosted.modifyPacket fun _ _ _ => rfl) fun _ =>
      blind_clearErrorState
  · exact .bind (blind_sendRange _ _) fun _ => blind_getErrorState
  · have hrest : BlindHosted (do
        let result ← sendLoop ((← get).net.results.length + 1) .done
        modifyPacket Packet.sendReset
        return result) := by
      refine BlindHosted.get_bind (fun h => ?_) fun _ _ _ => rfl
      refine .bind (blind_sendLoop _ _) fun _ => ?_
      exact .bind (BlindHosted.modifyPacket fun _ _ _ => rfl) fun _ =>
        .pure _
    -- a first send, unless one is under way
    refine .ite (.bind (blind_sendRange _ _) fun sent => ?_) hrest
    refine .ite ?_ hrest
    exact .bind (BlindHosted.modifyPacket fun _ _ _ => rfl) fun _ => hrest

/-- **Sending** it to an address. -/
theorem blind_sendTo (inet : InetText) (address : Address) :
    BlindHosted (UdpSocket.sendTo inet address) := by
  refine BlindHosted.get_bind (fun h => ?_) fun _ _ _ => rfl
  refine .ite blind_clearErrorState ?_
  refine .bind (respects_liftExcept _) fun native => ?_
  refine .bind (BlindHosted.modifyNet _) fun _ => ?_
  refine .bind (blind_sendRange _ _) fun sent => ?_
  exact .ite blind_getErrorState blind_clearErrorState

/-- A datagram replaces the packet, and does not ask what a stream has left of it. -/
theorem blind_receiveDatagramPacket (received : Int) :
    BlindHosted (receiveDatagramPacket received) := by
  refine .ite blind_getErrorState ?_
  refine .bind (respects_enforce _ _) fun _ => ?_
  refine BlindHosted.get_bind (fun h => ?_) fun _ _ _ => rfl
  cases h.socket.datagram with
  | none => exact .throw _
  | some datagram =>
    refine .bind (respects_enforce _ _) fun _ => ?_
    refine .bind (BlindHosted.onPacket blind_clear) fun _ => ?_
    refine .bind (BlindHosted.onPacket (blind_resize _)) fun _ => ?_
    refine .bind (BlindHosted.modifyPacket fun _ _ _ => rfl) fun _ => ?_
    exact .bind (BlindHosted.onPacket (blind_writeData _ _)) fun _ =>
      blind_clearErrorState

theorem blind_receiveDatagram : BlindHosted receiveDatagram := by
  refine BlindHosted.get_bind (fun h => ?_) fun _ _ _ => rfl
  cases h.socket.datagram with
  | none => exact .throw _
  | some datagram =>
    refine .bind (blind_receiveBytes _) fun _ => ?_
    exact .bind (BlindHosted.modifySocket _) fun _ => .pure _

/-- **Receiving** a datagram and the address of its sender. -/
theorem blind_receiveFrom (inet : InetText) : BlindHosted (UdpSocket.receiveFrom inet) := by
  refine .bind blind_receiveDatagram fun received => ?_
  -- with the address or without one
  have hrest : ∀ address : Option Address,
      BlindHosted (do return (← receiveDatagramPacket received, address)) := fun address =>
    .bind (blind_receiveDatagramPacket received) fun _ => .pure _
  refine .ite (.bind (.pure _) hrest) ?_
  refine BlindHosted.get_bind (fun h => .bind ?_ hrest) fun _ _ _ => rfl
  cases Address.fromNative inet h.net.source with
  | ok a => exact .pure _
  | error e => exact .throw _

/-- A receive of a datagram. -/
theorem blind_receiveUdp : BlindHosted (do receiveDatagramPacket (← receiveDatagram)) :=
  .bind blind_receiveDatagram blind_receiveDatagramPacket

end Hosted

end Sws.Packet
