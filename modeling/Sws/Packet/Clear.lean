import Sws.Packet.Alike
import Sws.Packet.Sound

/-!
# Clearing a Packet

`clear` resets what belongs to the user of a packet: the bytes and the two cursors.  What belongs
to `Socket` it leaves alone.  Of a send nothing is left when `Socket::send` returns; a receive may
be under way, and goes on in the cleared packet.

## Key Results

- `reply_alike`: only a receive from a stream tells packets apart that differ in the progress of
  a receive.
- `clear_indistinguishable`: which cleared packets are as good as new.
-/

namespace Sws.Packet

open Sws.Foundation

/-! ## What a caller sees -/

/-- What a call returns or assigns. -/
inductive Returned
  | nothing
  | count (n : ℕ)
  | position (pos : Int)
  | flag (b : Bool)
  | bytes (bytes : List UInt8)
  | scalar (t : ScalarType) (v : t.Val)
  | string (count : ℕ) (data : Option (List UInt8))
  | state (s : SocketState)
  | datagram (s : SocketState) (source : Option Address)

/-- What is seen of a call: its value or its exception, and the socket and the network after a
call that works on them. -/
structure Reply where
  value : Except Fault Returned
  outside : Option (Socket × Net) := none

def replyOf {α : Type} (value : α → Returned) : EStateM.Result Fault Packet α → Reply × Packet
  | .ok a p => (⟨.ok (value a), none⟩, p)
  | .error e p => (⟨.error e, none⟩, p)

def replyOfHosted {α : Type} (value : α → Returned) : EStateM.Result Fault Host α → Reply × Packet
  | .ok a h => (⟨.ok (value a), some (h.socket, h.net)⟩, h.packet)
  | .error e h => (⟨.error e, some (h.socket, h.net)⟩, h.packet)

def Operation.reply : Operation → Packet → Reply × Packet
  | seek cursor type value, p => replyOf (fun _ => .nothing) (Packet.seek cursor type value p)
  | readData size whole, p => replyOf .bytes (Packet.readData size whole p)
  | writeData bytes whole, p => replyOf .count (Packet.writeData bytes whole p)
  | resize size, p => replyOf (fun _ => .nothing) (Packet.resize size p)
  | clear, p => replyOf (fun _ => .nothing) (Packet.clear p)
  | shrinkToFit, p => replyOf (fun _ => .nothing) (Packet.shrinkToFit p)
  | send socket net, p => replyOfHosted .state (Socket.send ⟨socket, p, net⟩)
  | sendTo inet address socket net, p =>
    replyOfHosted .state (UdpSocket.sendTo inet address ⟨socket, p, net⟩)
  | receive socket net, p => replyOfHosted .state (Socket.receive ⟨socket, p, net⟩)
  | receiveFrom inet socket net, p =>
    replyOfHosted (fun r => .datagram r.1 r.2) (UdpSocket.receiveFrom inet ⟨socket, p, net⟩)
  | moveOut, p => (⟨.ok .nothing, none⟩, p.movedFrom)
  | assign packet, _ => (⟨.ok .nothing, none⟩, packet)

def Form.reply : Form → Packet → Reply × Packet
  | read t, p => replyOf .bytes (Packet.read t p)
  | extract t, p => replyOf (.scalar t) (Packet.extract t p)
  | readString beyond, p => replyOf (fun r => .string r.1 r.2) (Packet.readString beyond p)
  | extractString beyond, p => replyOf (.string 0) (Packet.extractString beyond p)
  | write t v, p => replyOf .count (Packet.write t v p)
  | insert t v, p => replyOf (fun _ => .nothing) (Packet.insert t v p)
  | writeString order s, p => replyOf .count (Packet.writeString order s p)
  | insertString order s, p => replyOf (fun _ => .nothing) (Packet.insertString order s p)
  | writePacket packet, p => replyOf .count (Packet.writePacket packet p)
  | insertPacket packet, p => replyOf (fun _ => .nothing) (Packet.insertPacket packet p)
  | insertSelf, p => replyOf (fun _ => .nothing) (Packet.insertSelf p)

/-- What a program can ask of a packet. -/
inductive Request
  | operation (op : Operation)
  | form (f : Form)
  | tell (cursor : SeekCursor)
  | atEnd
  | contents

def Request.reply : Request → Packet → Reply × Packet
  | operation op, p => op.reply p
  | form f, p => f.reply p
  | tell cursor, p => (⟨.ok (.position (p.tell cursor)), none⟩, p)
  | atEnd, p => (⟨.ok (.flag p.atEnd), none⟩, p)
  -- `data()`, and with it every query of the size
  | contents, p => (⟨.ok (.bytes p.data), none⟩, p)

/-- The request is a receive from a stream. -/
def Request.Streams : Request → Prop
  | operation (.receive socket _) => socket.protocol ≠ .udp
  | _ => False

section Replies

theorem replyOf_snd {α : Type} (value : α → Returned) (r : EStateM.Result Fault Packet α) :
    (replyOf value r).2 = finalState r := by
  cases r <;> rfl

theorem replyOfHosted_snd {α : Type} (value : α → Returned) (socket : Socket) (net : Net)
    (m : HostM α) (p : Packet) :
    (replyOfHosted value (m ⟨socket, p, net⟩)).2 = finalState ((hosted socket net m).run p) := by
  show _ = finalState (hosted socket net m p)
  simp only [hosted]
  cases m ⟨socket, p, net⟩ <;> rfl

/-- A reply leaves the packet that the operation leaves. -/
theorem Operation.reply_snd (op : Operation) (p : Packet) :
    (op.reply p).2 = finalState (op.apply.run p) := by
  cases op with
  | seek | resize | clear | shrinkToFit =>
    simp only [Operation.reply, Operation.apply, replyOf_snd, EStateM.run]
  | readData | writeData => exact (replyOf_snd _ _).trans (finalState_discard p).symm
  | send | sendTo | receive | receiveFrom =>
    exact (replyOfHosted_snd _ _ _ _ p).trans (finalState_discard p).symm
  | moveOut | assign => rfl

theorem Form.reply_snd (f : Form) (p : Packet) :
    (f.reply p).2 = finalState (f.apply.run p) := by
  cases f with
  | insert | insertString | insertPacket | insertSelf => exact replyOf_snd _ _
  | read | extract | readString | extractString | write | writeString | writePacket =>
    exact (replyOf_snd _ _).trans (finalState_discard p).symm

end Replies

/-! ## The progress of a receive -/

section Progress

variable {p q : Packet}

/-- The replies are the same, and the packets differ at most in the progress of a receive. -/
def SameReply (r r' : Reply × Packet) : Prop := r.1 = r'.1 ∧ Alike r.2 r'.2

theorem replyOf_alike {α : Type} {value : α → Returned} {r r' : EStateM.Result Fault Packet α}
    (hend : EndAlike Alike (· = ·) r r') : SameReply (replyOf value r) (replyOf value r') := by
  cases hend with
  | ok hv hs => exact ⟨by rw [hv]; rfl, hs⟩
  | error hs => exact ⟨rfl, hs⟩

theorem replyOfHosted_alike {α : Type} {value : α → Returned} {r r' : EStateM.Result Fault Host α}
    (hend : EndAlike AlikeHosts (· = ·) r r') :
    SameReply (replyOfHosted value r) (replyOfHosted value r') := by
  cases hend with
  | ok hv hs =>
    obtain ⟨pos, target, rfl⟩ := hs
    exact ⟨by rw [hv]; rfl, pos, target, rfl⟩
  | error hs =>
    obtain ⟨pos, target, rfl⟩ := hs
    exact ⟨rfl, pos, target, rfl⟩

/-- A socket is given packets that differ at most in the progress of a receive. -/
theorem alike_hosts (socket : Socket) (net : Net) (hpq : Alike p q) :
    AlikeHosts ⟨socket, p, net⟩ ⟨socket, q, net⟩ := by
  obtain ⟨pos, target, rfl⟩ := hpq
  exact ⟨pos, target, rfl⟩

/-- A receive of a datagram does not see the progress of one from a stream. -/
theorem receive_endAlike {socket : Socket} (net : Net) (hudp : socket.protocol = .udp)
    (hpq : Alike p q) : EndAlike AlikeHosts (· = ·) (Socket.receive.run ⟨socket, p, net⟩)
      (Socket.receive.run ⟨socket, q, net⟩) := by
  rw [Socket.receive_udp hudp, Socket.receive_udp hudp]
  exact blind_receiveUdp.run _ _ (alike_hosts socket net hpq)

theorem operation_alike (op : Operation) (hop : ¬(Request.operation op).Streams)
    (hpq : Alike p q) : SameReply (op.reply p) (op.reply q) := by
  cases op with
  | seek cursor type value => exact replyOf_alike ((blind_seek cursor type value).run p q hpq)
  | readData size whole => exact replyOf_alike ((blind_readData size whole).run p q hpq)
  | writeData bytes whole => exact replyOf_alike ((blind_writeData bytes whole).run p q hpq)
  | resize size => exact replyOf_alike ((blind_resize size).run p q hpq)
  | clear =>
    have hend : EndAlike Alike (· = ·) (Packet.clear p) (Packet.clear q) := blind_clear.run p q hpq
    simp only [Operation.reply]
    exact replyOf_alike hend
  | shrinkToFit => exact replyOf_alike ((Respects.pure ()).run p q hpq)
  | send socket net =>
    exact replyOfHosted_alike (blind_send.run _ _ (alike_hosts socket net hpq))
  | sendTo inet address socket net =>
    exact replyOfHosted_alike ((blind_sendTo inet address).run _ _ (alike_hosts socket net hpq))
  | receive socket net =>
    exact replyOfHosted_alike (receive_endAlike net (not_not.mp hop) hpq)
  | receiveFrom inet socket net =>
    exact replyOfHosted_alike ((blind_receiveFrom inet).run _ _ (alike_hosts socket net hpq))
  | moveOut =>
    -- a move resets the progress
    have hmoved := hpq.congr movedFrom fun _ _ _ => rfl
    have hrefl : Alike p.movedFrom q.movedFrom := hmoved ▸ Alike.refl p.movedFrom
    exact ⟨rfl, hrefl⟩
  | assign packet => exact ⟨rfl, Alike.refl packet⟩

theorem form_alike (f : Form) (hpq : Alike p q) : SameReply (f.reply p) (f.reply q) := by
  cases f with
  | read t => exact replyOf_alike ((blind_readData _ true).run p q hpq)
  | extract t => exact replyOf_alike ((blind_extract t).run p q hpq)
  | readString beyond => exact replyOf_alike ((blind_readString beyond).run p q hpq)
  | extractString beyond => exact replyOf_alike ((blind_extractString beyond).run p q hpq)
  | write t v => exact replyOf_alike ((blind_writeData _ true).run p q hpq)
  | insert t v => exact replyOf_alike ((blind_insert t v).run p q hpq)
  | writeString order s => exact replyOf_alike ((blind_writeString order s).run p q hpq)
  | insertString order s =>
    have hinsert : Blind (insertString order s) :=
      Respects.bind (blind_writeString order s) fun _ => Respects.pure ()
    exact replyOf_alike (hinsert.run p q hpq)
  | writePacket packet => exact replyOf_alike ((blind_writePacket packet).run p q hpq)
  | insertPacket packet => exact replyOf_alike ((blind_insertPacket packet).run p q hpq)
  | insertSelf => exact replyOf_alike (blind_insertSelf.run p q hpq)

/-- Only a receive from a stream tells the packets apart. -/
theorem reply_alike (r : Request) (hr : ¬r.Streams) (hpq : Alike p q) :
    SameReply (r.reply p) (r.reply q) := by
  cases r with
  | operation op => exact operation_alike op hr hpq
  | form f => exact form_alike f hpq
  | tell cursor =>
    have htell := hpq.congr (fun p => p.tell cursor) fun _ _ _ => by cases cursor <;> rfl
    exact ⟨by simp only [Request.reply, htell], hpq⟩
  | atEnd =>
    have hend := hpq.congr atEnd fun _ _ _ => rfl
    exact ⟨by simp only [Request.reply, hend], hpq⟩
  | contents =>
    have hdata := hpq.congr data fun _ _ _ => rfl
    exact ⟨by simp only [Request.reply, hdata], hpq⟩

end Progress

/-! ## After clearing -/

section Cleared

variable {p q : Packet} {t : ℕ}

/-- A cleared packet is a new one, but for the receive that is under way. -/
theorem cleared_eq (hp : Reachable p) : p.cleared = fresh.withReceive p.recvPos p.recvTarget := by
  have hsend := (reachable_sound hp).sendPos
  rw [cleared, hsend]
  rfl

/-- No receive is under way. -/
theorem cleared_eq_fresh (hp : Reachable p) (hidle : p.recvTarget < 0) : p.cleared = fresh := by
  have hnone : p.recvPos = -1 ∧ p.recvTarget = -1 := by
    rcases (reachable_sound hp).receiving with hnone | ⟨hpos, -⟩
    · exact hnone
    · exact absurd hidle (by omega)
  rw [cleared_eq hp, hnone.1, hnone.2]
  rfl

/-- A stream from which a call gets no byte. -/
def silent (p : Packet) : Host where
  socket := { handle := some 1, protocol := .tcp }
  packet := p
  net := { results := [.count 0] }

/-- A receive that gives no byte, and a look at the payload. -/
def probe : List Request :=
  [.operation (.receive (silent fresh).socket (silent fresh).net), .operation (.readData 1 true)]

theorem probe_replies {r : Reply × Packet}
    (hr : replyOfHosted .state (Socket.receive.run (silent q)) = r) :
    (runs Request.reply probe q).1.map Reply.value =
      [r.1.value, (replyOf .bytes ((readData 1 true).run r.2)).1.value] := by
  subst hr
  rfl

theorem probe_fresh :
    (runs Request.reply probe fresh).1.map Reply.value = [.ok (.state .done), .ok (.bytes [])] :=
  rfl

/-- The call goes on with the payload that is awaited. -/
theorem receive_silent_eq (hawaits : 0 < q.recvTarget) :
    Socket.receive.run (silent q) = Socket.receiveBody.run (silent q) :=
  Socket.receive_resuming (Socket.ne_udp_of_tcp rfl) hawaits

/-- The buffer has been sized for it. -/
theorem receive_silent (ht : q.recvTarget = t) (hpos : 0 < t) (hfits : Socket.Fits q t) :
    ∃ socket net, Socket.receive.run (silent q) =
      .ok .done ⟨socket, Socket.received q t [], net⟩ := by
  rw [receive_silent_eq (by omega),
    Socket.receiveBody_count (h := silent q) ht hfits rfl (Nat.zero_le _), Socket.getErrorState_run]
  exact ⟨_, _, rfl⟩

/-- A byte of it can be read. -/
theorem readData_silent (hpos : 0 < t) (hfits : Socket.Fits q t) (hread : q.readPos = 2) :
    ∃ b r, (readData 1 true).run (Socket.received q t []) = .ok [b] r := by
  have hlen : (Socket.received q t []).data.length = t + 2 :=
    Socket.length_received hfits (Nat.zero_le t)
  have hat : (Socket.received q t []).readPos = 2 := hread
  have havailable : (Socket.received q t []).available 1 = 1 := by
    rw [available, hlen, hat]
    omega
  have hroom := hfits.1
  simp only [datagramSize] at hroom
  have hok : (readData 1 true).run (Socket.received q t []) = _ :=
    readData_ok (by omega) (by omega) (by omega)
  rw [havailable, hat] at hok
  obtain ⟨b, hb⟩ : ∃ b, ((Socket.received q t []).data.drop (2 : Int).toNat).take 1 = [b] := by
    rw [← List.length_eq_one_iff, List.length_take, List.length_drop, hlen]
    omega
  rw [hb] at hok
  exact ⟨b, _, hok⟩

/-- The probe finds room for the payload that is awaited, or that there is none. -/
theorem probe_awaiting (hq : q = fresh.withReceive q.recvPos t) (ht : 0 < t ∧ t ≤ 65535) :
    (∃ e v, (runs Request.reply probe q).1.map Reply.value = [.error e, v]) ∨
      ∃ b, (runs Request.reply probe q).1.map Reply.value =
        [.ok (.state .done), .ok (.bytes [b])] := by
  have htarget : q.recvTarget = t := by rw [hq]; rfl
  have hread : q.readPos = 2 := by rw [hq]; rfl
  have hlimits : q.InLimits := by rw [hq]; exact inLimits_cleared {}
  by_cases hfits : Socket.Fits q t
  · obtain ⟨socket, net, hreceive⟩ := receive_silent htarget ht.1 hfits
    obtain ⟨b, r, hbyte⟩ := readData_silent ht.1 hfits hread
    refine .inr ⟨b, ?_⟩
    rw [probe_replies (congrArg _ hreceive)]
    simp only [replyOfHosted, hbyte, replyOf]
  · obtain ⟨e, r, hrun, -⟩ := Socket.receiveBody_throws (h := silent q) htarget ht.2 hlimits hfits
    have hthrows := (receive_silent_eq (by omega)).trans hrun
    refine .inl ⟨e, (replyOf .bytes ((readData 1 true).run r)).1.value, ?_⟩
    rw [probe_replies (congrArg _ hthrows)]
    rfl

/-- While a payload is awaited the probe tells the packet from a new one. -/
theorem distinguishable_of_awaiting (hq : q = fresh.withReceive q.recvPos t)
    (ht : 0 < t ∧ t ≤ 65535) : ¬Indistinguishable Request.reply (fun _ => True) q fresh := by
  intro hsame
  have hreplies := congrArg (List.map Reply.value) (hsame probe fun _ _ => trivial)
  rw [probe_fresh] at hreplies
  rcases probe_awaiting hq ht with ⟨e, v, hq⟩ | ⟨b, hq⟩
  · rw [hq] at hreplies
    cases hreplies
  · rw [hq] at hreplies
    cases hreplies

/-- **Clearing.** A cleared packet answers everything but receives from streams as a new one
does, and receives too exactly where none was under way when it was cleared. -/
theorem clear_indistinguishable (hp : Reachable p) :
    ∃ q, clear.run p = .ok () q ∧
      Indistinguishable Request.reply (fun r => ¬r.Streams) q fresh ∧
      (Indistinguishable Request.reply (fun _ => True) q fresh ↔ p.recvTarget < 0) := by
  refine ⟨p.cleared, clear_run p, ?_, ?_⟩
  · have halike : Alike p.cleared fresh := ⟨-1, -1, by rw [cleared_eq hp]; rfl⟩
    exact Indistinguishable.of_bisimulation (fun r _ _ hr hpq => reply_alike r hr hpq) halike
  · rcases (reachable_sound hp).idle_or_awaiting with hidle | ⟨t, ht, hpos, hlt⟩
    · rw [cleared_eq_fresh hp hidle.2]
      exact iff_of_true (fun _ _ => rfl) hidle.2
    · refine iff_of_false (distinguishable_of_awaiting ?_ ⟨hpos, hlt⟩) (by omega)
      rw [← ht]
      exact cleared_eq hp

end Cleared

/-- Of a payload of five bytes one has come. -/
def partway : Packet :=
  { data := [5, 0, 7, 0, 0, 0, 0], readPos := 2, writePos := 2, recvPos := 3, recvTarget := 5 }

theorem reachable_partway : Reachable partway :=
  reachable_fresh.step (.receive { handle := some 1, protocol := .tcp }
    { results := [.count 2, .count 1], inbound := [5, 0, 7] }) (by simp [Operation.operands]) rfl

theorem clear_indistinguishable_partway :
    ∃ q, clear.run partway = .ok () q ∧
      Indistinguishable Request.reply (fun r => ¬r.Streams) q fresh ∧
      (Indistinguishable Request.reply (fun _ => True) q fresh ↔ partway.recvTarget < 0) :=
  clear_indistinguishable reachable_partway

/-- A receive is under way, and goes on in the cleared packet. -/
theorem not_clear_indistinguishable :
    ∃ p q, Reachable p ∧ clear.run p = .ok () q ∧
      ¬Indistinguishable Request.reply (fun _ => True) q fresh := by
  refine ⟨partway, partway.cleared, reachable_partway, clear_run partway, ?_⟩
  exact distinguishable_of_awaiting rfl (t := 5) (by decide)

end Sws.Packet
