import Sws.Packet.RoundTrip
import Sws.Socket.Effect

/-!
# Datagrams

What arrives on a datagram socket is a packet or is refused.  From there it goes to the way of
a list of values from one program to another: written into a new packet, handed to the network
by `UdpSocket::send_to`, put together again by `UdpSocket::receive_from`, and read.

## Key Results

- `validates`: the datagrams that are accepted, and what the packet is afterwards.
- `hands_iff`: `send_to` hands over the whole buffer.
- `receiveFrom_accepted`: `receive_from` replaces whatever the packet held.
- `datagram_roundTrip`: the values are sent as the packet that they make up, and arrive.
-/

namespace Sws

open Sws.Foundation
open Socket (offering afterSend afterSendFailure afterDatagram delivered Announces Answers)
open Packet (encodeAll insertAll extractAll fresh Value)

/-! ## The validator -/

namespace Socket

/-- The first two bytes of the datagram hold the size of the rest. -/
def WellFormed (datagram : List UInt8) : Prop :=
  2 ≤ datagram.length ∧ ofBytes (datagram.take 2) = datagram.length - 2

instance (datagram : List UInt8) : Decidable (WellFormed datagram) :=
  inferInstanceAs (Decidable (_ ∧ _))

/-- What the validator has to do with a datagram in the socket's buffer. -/
structure Validates (h : Host) (datagram : List UInt8) : Prop where
  /-- A packet replaces the bytes and the cursors of whatever the packet was. -/
  accepts : WellFormed datagram →
    ∃ h', (receiveDatagramPacket datagram.length).run h = .ok .done h' ∧
      h'.packet.data = datagram ∧ h'.packet.readPos = 2 ∧
      h'.packet.writePos = datagram.length ∧ h'.packet.verifySize = true
  /-- Anything else throws, and changes no field of the packet. -/
  rejects : ¬WellFormed datagram →
    ∃ e h', (receiveDatagramPacket datagram.length).run h = .error (.thrown e) h' ∧
      h'.packet = h.packet
  /-- So does no datagram, without an exception. -/
  ignores : ∀ received : Int, received = 0 ∨ received = -1 →
    ∃ state h', (receiveDatagramPacket received).run h = .ok state h' ∧ h'.packet = h.packet

section Validator

variable {h : Host} {d : Datagram} {datagram : List UInt8}

/-- Below the size of the buffer, the code's check of the sizes is the one in unbounded
numbers. -/
theorem announces_iff_wellFormed (hfront : datagram <+: d.bytes)
    (hlen : datagram.length < datagramSize) :
    Announces d.bytes datagram.length ↔ WellFormed datagram := by
  rw [announces_iff hlen.le, WellFormed]
  refine and_congr_right fun htwo => ?_
  have htake : d.bytes.take 2 = datagram.take 2 := by
    obtain ⟨rest, hrest⟩ := hfront
    rw [← hrest, List.take_append_of_le_length htwo]
  rw [htake]
  exact and_iff_right hlen

theorem delivered_verifySize (p : Packet) (h : WellFormed datagram) :
    (delivered p datagram).verifySize = true := by
  obtain ⟨htwo, hsize⟩ := h
  have hheader : (datagram.take 2).length = 2 := by
    rw [List.length_take]
    omega
  refine (Packet.verifySize_iff _).mpr ⟨htwo, ?_⟩
  -- two bytes are determined by the number that they hold
  calc datagram.take 2
      = toBytes (datagram.take 2).length (ofBytes (datagram.take 2)) := (toBytes_ofBytes _).symm
    _ = toBytes 2 (datagram.length - 2) := by rw [hheader, hsize]

/-- **The validator** accepts exactly the datagrams that are packets, and leaves the packet alone
otherwise, whatever state the packet is in. -/
theorem validates (hd : h.socket.datagram = some d) (hfront : datagram <+: d.bytes)
    (hsome : 1 ≤ datagram.length) (hlen : datagram.length < datagramSize) :
    Validates h datagram where
  accepts hformed := by
    have haccepted := receiveDatagramPacket_accepted hd
      ((announces_iff_wellFormed hfront hlen).mpr hformed) hlen.le
    rw [← List.prefix_iff_eq_take.mp hfront] at haccepted
    exact ⟨_, haccepted, rfl, rfl, rfl, delivered_verifySize h.packet hformed⟩
  rejects hformed := by
    obtain ⟨msg, hrejected⟩ := receiveDatagramPacket_rejected (by omega) hd
      (mt (announces_iff_wellFormed hfront hlen).mp hformed)
    exact ⟨_, h, hrejected, rfl⟩
  ignores received hnone := by
    have hignored := receiveDatagramPacket_ignored (h := h) hnone.symm
    exact ⟨_, _, hignored.trans (getErrorState_run h), rfl⟩

end Validator

/-- A datagram of one byte in the buffer of a socket, and a packet that a move has emptied in
the middle of a frame. -/
def holdingByte : Host where
  socket :=
    { protocol := .udp
      datagram := some (Datagram.zeroed.receive [1, 0, 7]) }
  packet := { data := [], readPos := 5, writePos := 4, recvPos := 4, recvTarget := 3 }
  net := {}

theorem validates_byte : Validates holdingByte [1, 0, 7] := by
  have hfront : [1, 0, 7] <+: (Datagram.zeroed.receive [1, 0, 7]).bytes := by
    have hlen : ([1, 0, 7] : List UInt8).length ≤ datagramSize := by decide
    have htaken := take_receive (d := Datagram.zeroed) hlen
    exact List.prefix_iff_eq_take.mpr htaken.symm
  exact validates rfl hfront (by decide) (by decide)

end Socket

/-! ## Sending -/

/-- The bytes handed to native sends, one list for each call. -/
def Host.handed (h : Host) : List (List UInt8) :=
  h.net.offered.map fun range => (h.packet.data.drop range.1.toNat).take range.2.toNat

/-- The host when `sendto` is called with the native address. -/
def Host.addressed (h : Host) (native : Sockaddr) : Host :=
  { h with net := { h.net with destinations := h.net.destinations ++ [native] } }

namespace UdpSocket

/-- A call of `send_to` with the packet hands one datagram to the network, whatever the network
makes of it. -/
def Hands (inet : InetText) (address : Address) (p : Packet) (datagram : List UInt8) : Prop :=
  ∃ sender : Host, sender.packet = p ∧ sender.net.offered = [] ∧
    (finalState ((sendTo inet address).run sender)).handed = [datagram]

section Sending

variable {h : Host} {inet : InetText} {address : Address}

/-- A text that is no address throws before anything is sent. -/
theorem sendTo_throws {e : Exception} (hfull : h.packet.empty = false)
    (haddress : address.toNative inet = .error e) :
    (sendTo inet address).run h = .error (.thrown e) h := by
  simp only [sendTo, EStateM.run_bind, EStateM.run_get, hfull, Bool.false_eq_true, if_false,
    haddress]
  rfl

theorem sendTo_eq {native : Sockaddr} (hfull : h.packet.empty = false)
    (haddress : address.toNative inet = .ok native) :
    (sendTo inet address).run h =
      match (Socket.sendRange 0 h.packet.data.length).run (h.addressed native) with
      | .ok sent h' =>
        if sent = 0 ∨ sent = -1 then Socket.getErrorState.run h' else Socket.clearErrorState.run h'
      | .error e h' => .error e h' := by
  have hhanded : (modifyNet fun net =>
      { net with destinations := net.destinations ++ [native] }).run h =
      .ok () (h.addressed native) := rfl
  simp only [sendTo, EStateM.run_bind, EStateM.run_get, hfull, Bool.false_eq_true, if_false,
    haddress, liftExcept, EStateM.run_pure, hhanded]
  cases (Socket.sendRange 0 h.packet.data.length).run (h.addressed native) with
  | error e h' => rfl
  | ok sent h' =>
    rcases Classical.em (sent = 0 ∨ sent = -1) with hnone | hsome
    · simp only [if_pos hnone]
    · simp only [if_neg hsome]

/-- Every outcome of the native call comes after the whole buffer was offered to it, with the
address. -/
theorem sendTo_offers {native : Sockaddr} (hfull : h.packet.empty = false)
    (haddress : address.toNative inet = .ok native) :
    (finalState ((sendTo inet address).run h)).packet = h.packet ∧
      (finalState ((sendTo inet address).run h)).net.offered =
        h.net.offered ++ [(0, (h.packet.data.length : Int))] ∧
      (finalState ((sendTo inet address).run h)).net.destinations =
        h.net.destinations ++ [native] := by
  rw [sendTo_eq hfull haddress]
  -- the range is offered before the native call answers
  rcases Socket.answers_cases h.packet.data.length h.net.results with
    ⟨n, rest, hres, hn⟩ | ⟨e, rest, hres, he⟩ | hpending
  · have hsent := Socket.sendRange_count (h := h.addressed native) 0 h.packet.data.length hres
      (by rw [Int.toNat_natCast]; exact hn)
    rw [hsent]
    simp only
    split <;> exact ⟨rfl, rfl, rfl⟩
  · rw [Socket.sendRange_failure (h := h.addressed native) 0 h.packet.data.length hres he]
    exact ⟨rfl, rfl, rfl⟩
  · rw [Socket.sendRange_pending (h := h.addressed native) 0 h.packet.data.length
      (by rw [Int.toNat_natCast]; exact hpending)]
    exact ⟨rfl, rfl, rfl⟩

/-- Whatever the socket has sent before, the next datagram is the packet. -/
theorem sendTo_hands {native : Sockaddr} (hfull : h.packet.empty = false)
    (haddress : address.toNative inet = .ok native) :
    (finalState ((sendTo inet address).run h)).handed = h.handed ++ [h.packet.data] := by
  obtain ⟨hpacket, hoffered, -⟩ := sendTo_offers hfull haddress
  rw [Host.handed, Host.handed, hpacket, hoffered]
  simp

/-- `send_to` hands over the whole buffer, if the address is one. -/
theorem hands_iff {p : Packet} {datagram : List UInt8} (hfull : p.empty = false) :
    Hands inet address p datagram ↔
      datagram = p.data ∧ ∃ native, address.toNative inet = .ok native := by
  constructor
  · rintro ⟨sender, rfl, hnone, hhanded⟩
    cases haddress : address.toNative inet with
    | error e =>
      rw [sendTo_throws hfull haddress, finalState_error, Host.handed, hnone] at hhanded
      cases hhanded
    | ok native =>
      rw [sendTo_hands hfull haddress, Host.handed, hnone] at hhanded
      exact ⟨(List.singleton_inj.mp hhanded).symm, native, rfl⟩
  · rintro ⟨rfl, native, haddress⟩
    exact ⟨{ socket := {}, packet := p, net := {} }, rfl, rfl, sendTo_hands hfull haddress⟩

end Sending

/-! ## Receiving -/

/-- The platform prints the address that the datagram came from. -/
def Prints (inet : InetText) : Sockaddr → Prop
  | .inet _ addr => inet.ntop .inet addr ≠ none
  | .inet6 _ _ addr _ => inet.ntop .inet6 addr ≠ none
  | .unsupported _ => False

theorem fromNative_ok {inet : InetText} {source : Sockaddr} (h : Prints inet source) :
    ∃ address, Address.fromNative inet source = .ok address := by
  cases source with
  | inet port addr =>
    obtain ⟨str, hstr⟩ := Option.ne_none_iff_exists'.mp h
    exact ⟨⟨str, ntohs port, .inet⟩, by simp only [Address.fromNative, hstr]⟩
  | inet6 port flowInfo addr scopeId =>
    obtain ⟨str, hstr⟩ := Option.ne_none_iff_exists'.mp h
    exact ⟨⟨str, ntohs port, .inet6⟩, by simp only [Address.fromNative, hstr]⟩
  | unsupported family => exact h.elim

/-- The next native receive of a datagram socket gives the datagram. -/
structure Arrives (inet : InetText) (datagram : List UInt8) (h : Host) : Prop where
  buffer : ∃ d, h.socket.datagram = some d
  result : ∃ rest, h.net.results = .count datagram.length :: rest
  bytes : datagram <+: h.net.inbound
  source : Prints inet h.net.source

section Receiving

variable {h : Host} {inet : InetText} {datagram : List UInt8}

/-- What `receive_from` does with a datagram whose sender has an address. -/
theorem receiveFrom_eq {received : Int} {h' : Host} {address : Address}
    (hcall : Socket.receiveDatagram.run h = .ok received h') (hsome : received ≠ -1)
    (haddress : Address.fromNative inet h'.net.source = .ok address) :
    (receiveFrom inet).run h =
      match (Socket.receiveDatagramPacket received).run h' with
      | .ok state h'' => .ok (state, some address) h''
      | .error e h'' => .error e h'' := by
  have hlift : (some <$> liftExcept (.ok address) : HostM (Option Address)).run h' =
      .ok (some address) h' := rfl
  simp only [receiveFrom, EStateM.run_bind, hcall, if_neg hsome, EStateM.run_get, haddress, hlift]
  cases (Socket.receiveDatagramPacket received).run h' <;> rfl

/-- A datagram that is a packet replaces whatever the packet held. -/
theorem receiveFrom_accepted (harrives : Arrives inet datagram h)
    (hannounces : Announces datagram datagram.length) (hlen : datagram.length ≤ datagramSize) :
    ∃ address h', (receiveFrom inet).run h = .ok (.done, some address) h' ∧
      h'.packet = delivered h.packet datagram := by
  obtain ⟨⟨d, hd⟩, ⟨rest, hres⟩, hbytes, hsource⟩ := harrives
  obtain ⟨address, haddress⟩ := fromNative_ok hsource
  have hsize := (Socket.announces_iff hlen).mp hannounces
  -- the buffer holds the datagram at its front
  have htaken : h.net.inbound.take datagram.length = datagram :=
    (List.prefix_iff_eq_take.mp hbytes).symm
  have hcall := Socket.receiveDatagram_count hd hres (Nat.le_min.mpr ⟨hlen, hbytes.length_le⟩)
  have hbuffer : (afterDatagram h d rest datagram.length).socket.datagram =
      some (d.receive datagram) := by
    show some (d.receive (h.net.inbound.take datagram.length)) = _
    rw [htaken]
  have hfront : (d.receive datagram).bytes.take datagram.length = datagram :=
    Socket.take_receive hlen
  have hheader : Announces (d.receive datagram).bytes datagram.length := by
    have htwo : (d.receive datagram).bytes.take 2 = datagram.take 2 := by
      have hshort := congrArg (List.take 2) hfront
      rwa [List.take_take, Nat.min_eq_left hsize.1] at hshort
    rw [Socket.announces_iff hlen, htwo]
    exact hsize
  have hpacket := Socket.receiveDatagramPacket_accepted hbuffer hheader hlen
  have hsome : (datagram.length : Int) ≠ -1 := by omega
  rw [receiveFrom_eq hcall hsome haddress, hpacket, hfront]
  exact ⟨address, _, rfl, rfl⟩

end Receiving

/-! ## There and back -/

theorem length_encodeAll_pos {vs : List Value} (hsome : vs ≠ []) : 0 < (encodeAll vs).length := by
  obtain ⟨⟨t, v⟩, rest, rfl⟩ := List.exists_cons_of_ne_nil hsome
  have hsplit : encodeAll (⟨t, v⟩ :: rest) = t.encode v ++ encodeAll rest := List.flatMap_cons ..
  have hpos := t.size_pos
  rw [hsplit, List.length_append, ScalarType.length_encode]
  omega

/-- What the values are written to. -/
theorem insertAll_fresh {vs : List Value} (hsize : (encodeAll vs).length ≤ 65505) :
    (insertAll vs).run fresh = .ok () (fresh.written (encodeAll vs)) :=
  Packet.insertAll_run vs Packet.fresh_valid (by decide) (by
    show 2 + (encodeAll vs).length < 65536
    omega)

section Encoded

variable (bytes : List UInt8)

theorem length_written_fresh : (fresh.written bytes).data.length = 2 + bytes.length := by
  rw [Packet.length_written]
  show max (max 2 (2 + bytes.length)) 2 = _
  omega

theorem drop_written_fresh : (fresh.written bytes).data.drop 2 = bytes := by
  rw [Packet.drop_written bytes Packet.fresh_valid.writePos]
  show splice [] 0 bytes = bytes
  rw [splice_zero, List.drop_nil, List.append_nil]

/-- The packet is the size of the bytes and the bytes. -/
theorem data_written_fresh : (fresh.written bytes).data = Packet.frame bytes := by
  have hheader := ((Packet.verifySize_iff _).mp (Packet.written_verifySize bytes fresh)).2
  calc (fresh.written bytes).data
      = (fresh.written bytes).data.take 2 ++ (fresh.written bytes).data.drop 2 :=
        (List.take_append_drop 2 _).symm
    _ = Packet.frame bytes := by
        rw [hheader, drop_written_fresh, length_written_fresh, Nat.add_sub_cancel_left,
          Packet.frame]

/-- The packet is one that announces its own size. -/
theorem announces_written_fresh (hsize : bytes.length ≤ 65505) :
    Announces (fresh.written bytes).data (fresh.written bytes).data.length := by
  have hlen := length_written_fresh bytes
  have hheader := ((Packet.verifySize_iff _).mp (Packet.written_verifySize bytes fresh)).2
  have hle : (fresh.written bytes).data.length ≤ datagramSize := by
    simp only [datagramSize]
    omega
  -- the header of a written packet is up to date, and fits its 16 bits
  rw [Socket.announces_iff hle, hheader, ofBytes_toBytes_of_lt (by omega)]
  refine ⟨by omega, ?_, rfl⟩
  simp only [datagramSize]
  omega

end Encoded

/-- **There and back.** Values written into a new packet make up its payload, behind their size;
`send_to` hands over this packet to whatever address can be converted; and if the datagram arrives
unchanged, the values are read back from whatever packet receives it, all of them and nothing
more. -/
theorem datagram_roundTrip (vs : List Value) (hsome : vs ≠ [])
    (hsize : (encodeAll vs).length ≤ 65505) :
    ∃ p, (insertAll vs).run fresh = .ok () p ∧ p.data = Packet.frame (encodeAll vs) ∧
      (∀ inet address native, Address.toNative inet address = .ok native →
        ∀ sender : Host, sender.packet = p →
          (finalState ((sendTo inet address).run sender)).handed = sender.handed ++ [p.data]) ∧
      ∀ inet address datagram, Hands inet address p datagram →
      ∀ inet' receiver, Arrives inet' datagram receiver →
        ∃ source receiver' q,
          (receiveFrom inet').run receiver = .ok (.done, some source) receiver' ∧
          receiver'.packet.data = p.data ∧
          (extractAll (vs.map Sigma.fst)).run receiver'.packet = .ok vs q ∧
          q.atEnd = true := by
  have hlen := length_written_fresh (encodeAll vs)
  have hfull : (fresh.written (encodeAll vs)).empty = false := by
    have hbytes := length_encodeAll_pos hsome
    rw [← Bool.not_eq_true, Packet.empty_iff]
    omega
  refine ⟨_, insertAll_fresh hsize, data_written_fresh _, ?_, ?_⟩
  · rintro inet address native haddress sender hpacket
    rw [sendTo_hands (by rw [hpacket, hfull]) haddress, hpacket]
  intro inet address datagram hhands inet' receiver harrives
  obtain ⟨rfl, -⟩ := (hands_iff hfull).mp hhands
  obtain ⟨source, receiver', hrun, hpacket⟩ :=
    receiveFrom_accepted harrives (announces_written_fresh _ hsize)
      (by rw [hlen]; simp only [datagramSize]; omega)
  -- the packet is rebuilt around the bytes that arrived
  have hdata : receiver'.packet.data = (fresh.written (encodeAll vs)).data := by
    rw [hpacket]
    rfl
  have hread : receiver'.packet.readPos = 2 := by
    rw [hpacket]
    rfl
  have hvalues := Packet.extractAll_of_prefixed (p := receiver'.packet) vs
    (by rw [hread, hdata, hlen]; omega) (by rw [hdata, hlen]; omega)
    (by
      rw [hread, hdata]
      exact ⟨[], (List.append_nil _).trans (drop_written_fresh _).symm⟩)
  refine ⟨source, receiver', _, hrun, hdata, hvalues, ?_⟩
  -- all that is left of the payload has been read
  show (toSize (receiver'.packet.readPos + (encodeAll vs).length) ==
    receiver'.packet.data.length) = true
  rw [hread, hdata, hlen, toSize_of_nonneg (by omega) (by omega), beq_iff_eq]
  omega

/-- A datagram of one byte arrives while the packet is in the middle of a frame. -/
def receivingByte : Host where
  socket :=
    { protocol := .udp
      datagram := some Datagram.zeroed }
  packet := { data := [0, 0, 9, 9, 9], recvPos := 4, recvTarget := 3 }
  net :=
    { results := [.count 3]
      inbound := [1, 0, 7]
      source := .inet 0 [127, 0, 0, 1] }

theorem datagram_roundTrip_byte :
    ∃ source receiver' q,
      (receiveFrom .loopback).run receivingByte = .ok (.done, some source) receiver' ∧
      receiver'.packet.data = [1, 0, 7] ∧
      (extractAll [.uint8]).run receiver'.packet = .ok [⟨.uint8, (7 : UInt8)⟩] q ∧
      q.atEnd = true := by
  obtain ⟨p, hp, -, -, harrives⟩ := datagram_roundTrip [⟨.uint8, (7 : UInt8)⟩] (by simp) (by decide)
  have hwritten : (insertAll [⟨.uint8, (7 : UInt8)⟩]).run fresh =
      .ok () { fresh with data := [1, 0, 7], writePos := 3 } := rfl
  rw [hwritten] at hp
  cases hp
  refine harrives .loopback ⟨"127.0.0.1", 80, .inet⟩ [1, 0, 7] ?_ .loopback receivingByte ?_
  · exact (hands_iff rfl).mpr ⟨rfl, _, rfl⟩
  · have hprints : InetText.loopback.ntop .inet [127, 0, 0, 1] ≠ none := by decide
    exact ⟨⟨_, rfl⟩, ⟨[], rfl⟩, List.prefix_refl _, hprints⟩

end UdpSocket

end Sws
