import Sws.Foundation.Transition
import Sws.Packet.Header
import Sws.Socket.Connection
import Sws.Socket.Datagram
import Sws.Socket.Delivery

/-!
# A Network of Datagram Sockets

Programs that send each other packets with `UdpSocket::send_to` and `UdpSocket::receive_from`
over a network that may lose datagrams, repeat them, deliver them in any order and cut them
short, and on which others send what they like.

## Model

- A datagram that was handed to the network stays there: it may arrive at any time at the socket
  it is addressed to, any number of times, and any part of it from its start, or nothing of it.
- A call is one event, and leaves what it has done behind, however it ends.

## Key Results

- `receiveFrom_cases`, `receiveFrom_empty`: how a call of `receive_from` ends.
- `obtained_sent`: every packet that is obtained was sent, and arrived as a whole; or a datagram
  without a byte was taken for the packet from before.
- `obtains_whole`: every packet that arrives as a whole is obtained.
-/

namespace Sws.UdpSocket

open Sws.Foundation
open Socket (Endpoint Announces delivered)
open Packet (Used)

/-! ## One call -/

section Calls

variable {inet : InetText} {h h' : Host} {address : Address}

/-- However a call of `send_to` ends, the native call has accepted the start of the packet, or
nothing, and the socket has kept its buffer. -/
theorem sendTo_leaves (inet : InetText) (address : Address) (h : Host) :
    ∃ n, (finalState ((sendTo inet address).run h)).net.accepted =
        h.net.accepted ++ h.packet.data.take n ∧
      (finalState ((sendTo inet address).run h)).socket.datagram = h.socket.datagram := by
  have hnothing : h.net.accepted = h.net.accepted ++ h.packet.data.take 0 := by
    rw [List.take_zero, List.append_nil]
  cases hempty : h.packet.empty with
  | true =>
    have hrun : (sendTo inet address).run h = Socket.clearErrorState.run h := by
      simp only [sendTo, EStateM.run_bind, EStateM.run_get, hempty, if_true]
    rw [hrun]
    exact ⟨0, hnothing, rfl⟩
  | false =>
    cases haddress : address.toNative inet with
    | error e =>
      rw [sendTo_throws hempty haddress]
      exact ⟨0, hnothing, rfl⟩
    | ok native =>
      rw [sendTo_eq hempty haddress]
      rcases Socket.answers_cases h.packet.data.length h.net.results with
        ⟨n, rest, hres, hn⟩ | ⟨e, rest, hres, he⟩ | hpending
      · rw [Socket.sendRange_count (h := h.addressed native) 0 h.packet.data.length hres
          (by rw [Int.toNat_natCast]; exact hn)]
        simp only
        split <;> exact ⟨n, rfl, rfl⟩
      · rw [Socket.sendRange_failure (h := h.addressed native) 0 h.packet.data.length hres he]
        exact ⟨0, hnothing, rfl⟩
      · rw [Socket.sendRange_pending (h := h.addressed native) 0 h.packet.data.length
          (by rw [Int.toNat_natCast]; exact hpending)]
        exact ⟨0, hnothing, rfl⟩

/-- The next native receive gives the first `n` bytes of what has arrived. -/
structure Receives (h : Host) (n : ℕ) : Prop where
  results : h.net.results = [.count n]
  le : n ≤ min datagramSize h.net.inbound.length

/-- The two ways in which a call ends that has received something. -/
theorem receiveFrom_cases {d : Datagram} {n : ℕ} (hd : h.socket.datagram = some d)
    (hreceives : Receives h n) (hsome : 0 < n) {a : Address}
    (haddress : Address.fromNative inet h.net.source = .ok a) :
    (Announces (h.net.inbound.take n) n ∧ ∃ g, (receiveFrom inet).run h = .ok (.done, some a) g ∧
      g.packet = delivered h.packet (h.net.inbound.take n) ∧ g.socket.datagram ≠ none) ∨
    (¬Announces (h.net.inbound.take n) n ∧
      ∃ msg g, (receiveFrom inet).run h = .error (.thrown (.logicError msg)) g ∧
      g.packet = h.packet ∧ g.socket.datagram ≠ none) := by
  obtain ⟨hres, hn⟩ := hreceives
  have hcall := Socket.receiveDatagram_count hd hres hn
  have hlen : (h.net.inbound.take n).length = n := by
    rw [List.length_take]
    omega
  have hle : n ≤ datagramSize := by omega
  have hbuffer : (Socket.afterDatagram h d [] n).socket.datagram =
      some (d.receive (h.net.inbound.take n)) := rfl
  -- what lies in the buffer behind the datagram is of no account
  have hfront : (d.receive (h.net.inbound.take n)).bytes.take n = h.net.inbound.take n := by
    have htake := Socket.take_receive (d := d) (by omega : (h.net.inbound.take n).length ≤ _)
    rwa [hlen] at htake
  have hannounces : Announces (d.receive (h.net.inbound.take n)).bytes n ↔
      Announces (h.net.inbound.take n) n := by
    rw [Socket.announces_iff hle, Socket.announces_iff hle]
    refine and_congr_right fun htwo => ?_
    have hheader := congrArg (List.take 2) hfront
    rw [List.take_take, Nat.min_eq_left htwo] at hheader
    rw [hheader]
  rw [receiveFrom_eq hcall (by omega) haddress]
  rcases Classical.em (Announces (h.net.inbound.take n) n) with hformed | hbad
  · rw [Socket.receiveDatagramPacket_accepted hbuffer (hannounces.mpr hformed) hle, hfront]
    exact .inl ⟨hformed, _, rfl, rfl, by rw [hbuffer]; simp⟩
  · obtain ⟨msg, hrun⟩ := Socket.receiveDatagramPacket_rejected (by omega) hbuffer
      (mt hannounces.mp hbad)
    rw [hrun]
    exact .inr ⟨hbad, msg, _, rfl, rfl, by rw [hbuffer]; simp⟩

/-- A datagram of which nothing arrives is answered with the error that an earlier call has left
behind, and with its sender; the packet stays what it was. -/
theorem receiveFrom_empty {d : Datagram} (hd : h.socket.datagram = some d)
    (hres : h.net.results = [.count 0]) {a : Address}
    (haddress : Address.fromNative inet h.net.source = .ok a) :
    ∃ g, (receiveFrom inet).run h = .ok (toState h.net.lastError, some a) g ∧
      g.packet = h.packet ∧ g.socket.datagram ≠ none := by
  have hcall := Socket.receiveDatagram_count hd hres (Nat.zero_le _)
  rw [receiveFrom_eq hcall (by decide) haddress, Nat.cast_zero,
    Socket.receiveDatagramPacket_ignored (.inr rfl), Socket.getErrorState_run]
  exact ⟨_, rfl, rfl, by simp [Socket.afterDatagram]⟩

/-- A sender without an address is not answered with one. -/
theorem receiveFrom_unnamed {d : Datagram} {n : ℕ} (hd : h.socket.datagram = some d)
    (hreceives : Receives h n) {e : Exception}
    (haddress : Address.fromNative inet h.net.source = .error e) :
    (receiveFrom inet).run h = .error (.thrown e) (Socket.afterDatagram h d [] n) := by
  obtain ⟨hres, hn⟩ := hreceives
  have hcall := Socket.receiveDatagram_count hd hres hn
  have hcount : (n : Int) ≠ -1 := by omega
  simp only [receiveFrom, EStateM.run_bind, hcall, if_neg hcount, EStateM.run_get,
    Socket.afterDatagram, haddress]
  rfl

/-- A failure is left to the error state. -/
theorem receiveFrom_failure (inet : InetText) {d : Datagram} {e : SocketError}
    (hd : h.socket.datagram = some d) (hres : h.net.results = [.failure e]) (he : e ≠ .none) :
    ∃ g, (receiveFrom inet).run h = .ok (toState e, none) g ∧ g.packet = h.packet ∧
      g.socket.datagram = some d := by
  have hcall := Socket.receiveDatagram_failure hd hres he
  simp only [receiveFrom, EStateM.run_bind, hcall, if_true, EStateM.run_pure,
    Socket.receiveDatagramPacket_ignored (.inl rfl), Socket.getErrorState_run]
  exact ⟨_, rfl, rfl, hd⟩

end Calls

/-! ## The network -/

/-- A datagram on its way. -/
structure Message where
  source : Sockaddr
  destination : Sockaddr
  bytes : List UInt8
  deriving DecidableEq, Repr

/-- The programs that use the library, by the places `I` at which they run. -/
structure Network (I : Type) where
  endpoint : I → Endpoint
  /-- All datagrams that were handed to the network. -/
  messages : List Message := []
  /-- The packets of a program that were handed over, with their destinations. -/
  sent : I → List (Packet × Sockaddr)
  /-- The packets that a program has obtained, with the addresses they came from. -/
  obtained : I → List (Packet × Address)

inductive Event (I : Type)
  | send (i : I) (packet : Packet) (address : Address) (results : List NativeResult)
  /-- The first `n` bytes of a message arrive. -/
  | receive (i : I) (m : Message) (n : ℕ)
  /-- A native receive fails. -/
  | fail (i : I) (e : SocketError)
  /-- The program goes on with another packet to receive into. -/
  | take (i : I) (packet : Packet)
  /-- Somebody else sends a datagram. -/
  | foreign (m : Message)

/-- The host of a call that receives a part of a message. -/
def receiving (e : Endpoint) (m : Message) (n : ℕ) : Host where
  socket := e.socket
  packet := e.packet
  net := { lastError := e.lastError, results := [.count n], inbound := m.bytes, source := m.source }

/-- The host of a call whose native receive fails. -/
def receivingNothing (e : Endpoint) (error : SocketError) : Host where
  socket := e.socket
  packet := e.packet
  net := { lastError := e.lastError, results := [.failure error] }

/-- The end after a call of `receive_from`. -/
def left (h : Host) : Endpoint where
  socket := h.socket
  packet := h.packet
  lastError := h.net.lastError

/-- What a call hands over: it returns `done`, and reports a sender. -/
def handsOver : EStateM.Result Fault Host (SocketState × Option Address) → List (Packet × Address)
  | .ok (.done, some a) h => [(h.packet, a)]
  | _ => []

/-- No packet is handed over but the one that was received into. -/
theorem eq_of_mem_handsOver {state : SocketState} {a : Address} {h : Host}
    {o : Packet × Address} (ho : o ∈ handsOver (.ok (state, some a) h)) : o = (h.packet, a) := by
  cases state with
  | done => exact List.mem_singleton.mp ho
  | error | closed | inProgress => cases ho

namespace Network

variable {I : Type}

/-- The network after an event.  `name` are the native addresses of the sockets. -/
def after [DecidableEq I] (inet : InetText) (name : I → Sockaddr) (w : Network I) :
    Event I → Network I
  | .send i p address results =>
    let h := finalState ((sendTo inet address).run ((w.endpoint i).sending p results))
    let destinations := if h.net.accepted = [] then [] else h.net.destinations
    { w with
      endpoint := Function.update w.endpoint i
        { w.endpoint i with socket := h.socket, lastError := h.net.lastError }
      messages := w.messages ++ destinations.map fun d => ⟨name i, d, h.net.accepted⟩
      sent := Function.update w.sent i (w.sent i ++ destinations.map fun d => (p, d)) }
  | .receive i m n =>
    let r := (receiveFrom inet).run (receiving (w.endpoint i) m n)
    { w with
      endpoint := Function.update w.endpoint i (left (finalState r))
      obtained := Function.update w.obtained i (w.obtained i ++ handsOver r) }
  | .fail i e =>
    let r := (receiveFrom inet).run (receivingNothing (w.endpoint i) e)
    { w with endpoint := Function.update w.endpoint i (left (finalState r)) }
  | .take i p =>
    { w with endpoint := Function.update w.endpoint i { w.endpoint i with packet := p } }
  | .foreign m => { w with messages := w.messages ++ [m] }

/-- What can happen.  Programs send packets in use; a socket receives what is addressed to it; and
nobody else sends in a program's name. -/
inductive Step [DecidableEq I] (inet : InetText) (name : I → Sockaddr) :
    Network I → Event I → Network I → Prop
  | send {w : Network I} {i : I} {p : Packet} (address : Address) (results : List NativeResult)
      (hp : Used (.live p)) :
      Step inet name w (.send i p address results) (w.after inet name (.send i p address results))
  | receive {w : Network I} {i : I} {m : Message} {n : ℕ} (hm : m ∈ w.messages)
      (hdestination : m.destination = name i) (hn : n ≤ min datagramSize m.bytes.length) :
      Step inet name w (.receive i m n) (w.after inet name (.receive i m n))
  | fail {w : Network I} {i : I} {e : SocketError} (he : e ≠ .none) :
      Step inet name w (.fail i e) (w.after inet name (.fail i e))
  | take {w : Network I} (i : I) (p : Packet) :
      Step inet name w (.take i p) (w.after inet name (.take i p))
  | foreign {w : Network I} {m : Message} (hforeign : ∀ i, m.source ≠ name i) :
      Step inet name w (.foreign m) (w.after inet name (.foreign m))

/-- Datagram sockets between which nothing has been sent. -/
structure Fresh (w : Network I) : Prop where
  datagram : ∀ i, (w.endpoint i).socket.datagram ≠ none
  messages : w.messages = []
  sent : ∀ i, w.sent i = []
  obtained : ∀ i, w.obtained i = []

/-! ## What every run keeps -/

/-- The message is a part of a packet that a program has sent to its destination. -/
def SentBy (name : I → Sockaddr) (w : Network I) (m : Message) : Prop :=
  ∃ i p, m.source = name i ∧ (p, m.destination) ∈ w.sent i ∧ m.bytes <+: p.data

/-- The packet is what has arrived of a message, and all of a packet. -/
structure MadeOf (inet : InetText) (name : I → Sockaddr) (w : Network I) (i : I) (q : Packet)
    (a : Address) : Prop where
  message : ∃ m ∈ w.messages, m.destination = name i ∧ Address.fromNative inet m.source = .ok a ∧
    q.data <+: m.bytes
  consistent : q.Consistent
  readPos : q.readPos = 2

structure Kept (name : I → Sockaddr) (w : Network I) : Prop where
  datagram : ∀ i, (w.endpoint i).socket.datagram ≠ none
  messages : ∀ m ∈ w.messages, w.SentBy name m ∨ ∀ i, m.source ≠ name i
  sent : ∀ i, ∀ s ∈ w.sent i, s.1.Consistent

/-- Where the packet that a program receives into comes from: it is the one from the start of the
run, or one that the program has taken, or one that it has obtained. -/
def Origin (inet : InetText) (name : I → Sockaddr) (w start : Network I) (events : List (Event I))
    (i : I) (q : Packet) : Prop :=
  q = (start.endpoint i).packet ∨ .take i q ∈ events ∨
    ∃ a, (q, a) ∈ w.obtained i ∧ w.MadeOf inet name i q a

/-- A datagram of which nothing has arrived was taken for the packet from before. -/
structure Repeated (inet : InetText) (name : I → Sockaddr) (w start : Network I)
    (events : List (Event I)) (i : I) (q : Packet) (a : Address) : Prop where
  message : ∃ m ∈ w.messages, m.destination = name i ∧ Address.fromNative inet m.source = .ok a ∧
    .receive i m 0 ∈ events
  packet : w.Origin inet name start events i q

/-- What is known of the packets after a run. -/
structure Explained (inet : InetText) (name : I → Sockaddr) (w start : Network I)
    (events : List (Event I)) : Prop where
  kept : w.Kept name
  packet : ∀ i, w.Origin inet name start events i (w.endpoint i).packet
  obtained : ∀ i, ∀ o ∈ w.obtained i,
    w.MadeOf inet name i o.1 o.2 ∨ w.Repeated inet name start events i o.1 o.2

section Kept

variable {inet : InetText} {name : I → Sockaddr} {w w' : Network I}

/-- What was sent stays sent. -/
theorem SentBy.mono {m : Message} (hm : w.SentBy name m)
    (hsent : ∀ i, ∀ s ∈ w.sent i, s ∈ w'.sent i) : w'.SentBy name m := by
  obtain ⟨i, p, hsource, hp, hbytes⟩ := hm
  exact ⟨i, p, hsource, hsent i _ hp, hbytes⟩

theorem MadeOf.mono {i : I} {q : Packet} {a : Address} (hq : w.MadeOf inet name i q a)
    (hmessages : ∀ m ∈ w.messages, m ∈ w'.messages) : w'.MadeOf inet name i q a := by
  obtain ⟨m, hm, hmade⟩ := hq.message
  exact ⟨⟨m, hmessages m hm, hmade⟩, hq.consistent, hq.readPos⟩

theorem Fresh.kept (hw : w.Fresh) : w.Kept name where
  datagram := hw.datagram
  messages m hm := by
    rw [hw.messages] at hm
    cases hm
  sent i s hs := by
    rw [hw.sent i] at hs
    cases hs

theorem Fresh.explained (hw : w.Fresh) : w.Explained inet name w [] where
  kept := hw.kept
  packet _ := .inl rfl
  obtained i o ho := by
    rw [hw.obtained i] at ho
    cases ho

/-- **One call** of `receive_from` hands over a packet that has arrived, or hands over nothing new:
then the packet is the one from before, and a sender is reported only of a datagram of which nothing
has arrived. -/
theorem receive_reports (inet : InetText) {i : I} {m : Message} {n : ℕ} (hw : w.Kept name)
    (hm : m ∈ w.messages) (hdestination : m.destination = name i)
    (hn : n ≤ min datagramSize m.bytes.length) :
    let r := (receiveFrom inet).run (receiving (w.endpoint i) m n)
    (finalState r).socket.datagram ≠ none ∧
      ((∃ a, handsOver r = [((finalState r).packet, a)] ∧
          w.MadeOf inet name i (finalState r).packet a) ∨
        ((finalState r).packet = (w.endpoint i).packet ∧
          ∀ o ∈ handsOver r, n = 0 ∧ o.1 = (w.endpoint i).packet ∧
            Address.fromNative inet m.source = .ok o.2)) := by
  intro r
  obtain ⟨d, hd⟩ := Option.ne_none_iff_exists'.mp (hw.datagram i)
  have hreceives : Receives (receiving (w.endpoint i) m n) n := ⟨rfl, hn⟩
  -- the sender is converted before the packet is looked at
  cases haddress : Address.fromNative inet m.source with
  | error e =>
    have hrun : r = _ := receiveFrom_unnamed hd hreceives haddress
    rw [hrun]
    exact ⟨by simp [Socket.afterDatagram], .inr ⟨rfl, nofun⟩⟩
  | ok a =>
    -- a result of 0 is not an error, and nothing of it is put into the packet
    rcases Nat.eq_zero_or_pos n with rfl | hsome
    · obtain ⟨g, hrun, hpacket, hdatagram⟩ :=
        receiveFrom_empty (h := receiving (w.endpoint i) m 0) hd rfl haddress
      have hrun : r = _ := hrun
      rw [hrun]
      refine ⟨hdatagram, .inr ⟨hpacket, fun o ho => ?_⟩⟩
      rw [eq_of_mem_handsOver ho]
      exact ⟨rfl, hpacket, rfl⟩
    · rcases receiveFrom_cases hd hreceives hsome haddress with
        ⟨hannounces, g, hrun, hpacket, hdatagram⟩ | ⟨-, msg, g, hrun, hpacket, hdatagram⟩
      · have hrun : r = _ := hrun
        have hlen : (m.bytes.take n).length = n := by
          rw [List.length_take]
          omega
        have hdelivered : Socket.Delivered (w.endpoint i).packet
            (delivered (w.endpoint i).packet (m.bytes.take n)) :=
          ⟨m.bytes.take n, by rw [hlen]; exact hannounces, by omega, rfl⟩
        rw [hrun]
        refine ⟨hdatagram, .inl ⟨a, rfl, ?_⟩⟩
        rw [finalState_ok, hpacket]
        exact ⟨⟨m, hm, hdestination, haddress, List.take_prefix ..⟩,
          Packet.consistent_delivered hdelivered, rfl⟩
      · have hrun : r = _ := hrun
        rw [hrun]
        exact ⟨hdatagram, .inr ⟨hpacket, nofun⟩⟩

variable [DecidableEq I]

theorem kept_send {i : I} {p : Packet} {address : Address} {results : List NativeResult}
    (hw : w.Kept name) (hp : Used (.live p)) :
    (w.after inet name (.send i p address results)).Kept name := by
  obtain ⟨n, haccepted, hdatagram⟩ :=
    sendTo_leaves inet address ((w.endpoint i).sending p results)
  have hpart : (finalState ((sendTo inet address).run
      ((w.endpoint i).sending p results))).net.accepted <+: p.data := by
    rw [haccepted]
    exact List.take_prefix ..
  -- what the program has sent before, and now
  have hsent : ∀ j, ∀ s ∈ w.sent j, s ∈ (w.after inet name (.send i p address results)).sent j := by
    intro j s hs
    rcases eq_or_ne j i with rfl | hne
    · simp only [after, Function.update_self]
      exact List.mem_append_left _ hs
    · simp only [after, Function.update_of_ne hne]
      exact hs
  refine ⟨Socket.forall_update (P := fun e : Endpoint => e.socket.datagram ≠ none) hw.datagram ?_,
    ?_, Socket.forall_update (P := fun l : List (Packet × Sockaddr) => ∀ s ∈ l, s.1.Consistent)
      hw.sent ?_⟩
  · rw [hdatagram]
    exact hw.datagram i
  · intro m hm
    rcases List.mem_append.mp hm with hold | hnew
    · exact (hw.messages m hold).imp_left fun h => h.mono hsent
    · obtain ⟨d, hd, rfl⟩ := List.mem_map.mp hnew
      refine .inl ⟨i, p, rfl, ?_, hpart⟩
      simp only [after, Function.update_self]
      exact List.mem_append_right _ (List.mem_map_of_mem hd)
  · intro s hs
    rcases List.mem_append.mp hs with hold | hnew
    · exact hw.sent i s hold
    · obtain ⟨d, -, rfl⟩ := List.mem_map.mp hnew
      exact (Packet.kept_of_used hp).2

/-- **One event** keeps what every run keeps. -/
theorem kept_step {e : Event I} (hw : w.Kept name) (hstep : Step inet name w e w') :
    w'.Kept name := by
  cases hstep with
  | send address results hp => exact kept_send hw hp
  | receive hm hdestination hn =>
    exact ⟨Socket.forall_update (P := fun e : Endpoint => e.socket.datagram ≠ none) hw.datagram
      (receive_reports inet hw hm hdestination hn).1, hw.messages, hw.sent⟩
  | @fail i e he =>
    obtain ⟨d, hd⟩ := Option.ne_none_iff_exists'.mp (hw.datagram i)
    have hcall : (receivingNothing (w.endpoint i) e).net.results = [.failure e] := rfl
    -- a failed call keeps the datagram buffer
    obtain ⟨g, hrun, -, hdatagram⟩ := receiveFrom_failure inet hd hcall he
    refine ⟨Socket.forall_update (P := fun e : Endpoint => e.socket.datagram ≠ none) hw.datagram ?_,
      hw.messages, hw.sent⟩
    rw [hrun]
    show g.socket.datagram ≠ none
    rw [hdatagram]
    simp
  | take i p =>
    exact ⟨Socket.forall_update (P := fun e : Endpoint => e.socket.datagram ≠ none) hw.datagram
      (hw.datagram i), hw.messages, hw.sent⟩
  | foreign hforeign =>
    refine ⟨hw.datagram, fun m hm => ?_, hw.sent⟩
    rcases List.mem_append.mp hm with hold | hnew
    · exact hw.messages m hold
    · rw [List.mem_singleton.mp hnew]
      exact .inr hforeign

theorem kept_of_reaches {events : List (Event I)} (hw : w.Fresh)
    (h : Reaches (Step inet name) w events w') : w'.Kept name :=
  h.invariant (fun _ _ _ hkept hstep => kept_step hkept hstep) hw.kept

/-! ## Where packets come from -/

section Explained

variable {start : Network I} {events : List (Event I)} {e : Event I}

/-- Messages stay in the network. -/
theorem messages_after (e : Event I) : ∀ m ∈ w.messages, m ∈ (w.after inet name e).messages := by
  intro m hm
  cases e with
  | send i p address results => exact List.mem_append_left _ hm
  | receive i m n => exact hm
  | fail i e => exact hm
  | take i p => exact hm
  | foreign m => exact List.mem_append_left _ hm

/-- What was obtained stays obtained. -/
theorem obtained_after (e : Event I) (i : I) :
    ∀ o ∈ w.obtained i, o ∈ (w.after inet name e).obtained i := by
  intro o ho
  cases e with
  | send j p address results => exact ho
  | receive j m n =>
    rcases eq_or_ne i j with rfl | hne
    · simp only [after, Function.update_self]
      exact List.mem_append_left _ ho
    · simp only [after, Function.update_of_ne hne]
      exact ho
  | fail j e => exact ho
  | take j p => exact ho
  | foreign m => exact ho

theorem Origin.after {i : I} {q : Packet} (h : w.Origin inet name start events i q)
    (e : Event I) : (w.after inet name e).Origin inet name start (events ++ [e]) i q := by
  rcases h with hstart | htake | ⟨a, hobtained, hmade⟩
  · exact .inl hstart
  · exact .inr (.inl (List.mem_append_left _ htake))
  · exact .inr (.inr ⟨a, obtained_after e i _ hobtained, hmade.mono (messages_after e)⟩)

theorem Repeated.after {i : I} {q : Packet} {a : Address}
    (h : w.Repeated inet name start events i q a) (e : Event I) :
    (w.after inet name e).Repeated inet name start (events ++ [e]) i q a := by
  obtain ⟨⟨m, hm, hdestination, haddress, hevent⟩, hpacket⟩ := h
  exact ⟨⟨m, messages_after e m hm, hdestination, haddress, List.mem_append_left _ hevent⟩,
    hpacket.after e⟩

/-- What was obtained before an event is explained as it was. -/
theorem Explained.obtained_of_mem (hw : w.Explained inet name start events) (e : Event I) {i : I}
    {o : Packet × Address} (ho : o ∈ w.obtained i) :
    (w.after inet name e).MadeOf inet name i o.1 o.2 ∨
      (w.after inet name e).Repeated inet name start (events ++ [e]) i o.1 o.2 :=
  (hw.obtained i o ho).imp (fun h => h.mono (messages_after e)) fun h => h.after e

/-- An event changes the packet to receive into at one place only. -/
theorem Explained.packet_after (hw : w.Explained inet name start events) {i : I} {x : Endpoint}
    (hendpoint : (w.after inet name e).endpoint = Function.update w.endpoint i x)
    (hself : (w.after inet name e).Origin inet name start (events ++ [e]) i x.packet) (j : I) :
    (w.after inet name e).Origin inet name start (events ++ [e]) j
      ((w.after inet name e).endpoint j).packet := by
  rw [hendpoint]
  rcases eq_or_ne j i with rfl | hne
  · rw [Function.update_self]
    exact hself
  · rw [Function.update_of_ne hne]
    exact (hw.packet j).after e

/-- What a call obtains has arrived, or is the packet from before. -/
theorem explained_receive {i : I} {m : Message} {n : ℕ}
    (hw : w.Explained inet name start events) (hm : m ∈ w.messages)
    (hdestination : m.destination = name i) (hn : n ≤ min datagramSize m.bytes.length) :
    (w.after inet name (.receive i m n)).Explained inet name start
      (events ++ [.receive i m n]) := by
  have hstep : Step inet name w (.receive i m n) _ := .receive hm hdestination hn
  obtain ⟨-, hreports⟩ := receive_reports inet hw.kept hm hdestination hn
  have hself : (w.after inet name (.receive i m n)).obtained i = w.obtained i ++
      handsOver ((receiveFrom inet).run (receiving (w.endpoint i) m n)) := by
    simp only [Network.after, Function.update_self]
  have hother : ∀ j, j ≠ i → (w.after inet name (.receive i m n)).obtained j = w.obtained j := by
    intro j hne
    simp only [Network.after, Function.update_of_ne hne]
  have hbefore := (hw.packet i).after (.receive i m n)
  -- the packets to receive into first, and then those obtained
  refine ⟨kept_step hw.kept hstep, hw.packet_after rfl ?_, fun j o ho => ?_⟩
  · rcases hreports with ⟨a, hhands, hmade⟩ | ⟨hsame, -⟩
    · refine .inr (.inr ⟨a, ?_, hmade.mono (messages_after _)⟩)
      rw [hself, hhands]
      exact List.mem_append_right _ (List.mem_singleton_self _)
    · rw [left, hsame]
      exact hbefore
  · rcases eq_or_ne j i with rfl | hne
    · rw [hself] at ho
      rcases List.mem_append.mp ho with hold | hnew
      · exact hw.obtained_of_mem _ hold
      · rcases hreports with ⟨a, hhands, hmade⟩ | ⟨-, hempty⟩
        · rw [hhands] at hnew
          rw [List.mem_singleton.mp hnew]
          exact .inl (hmade.mono (messages_after _))
        · obtain ⟨rfl, hq, haddress⟩ := hempty o hnew
          refine .inr ⟨⟨m, hm, hdestination, haddress, ?_⟩, ?_⟩
          · exact List.mem_append_right _ (List.mem_singleton_self _)
          · rw [hq]
            exact hbefore
    · rw [hother j hne] at ho
      exact hw.obtained_of_mem _ ho

/-- **One event.** -/
theorem explained_step (hw : w.Explained inet name start events)
    (hstep : Step inet name w e w') : w'.Explained inet name start (events ++ [e]) := by
  have hkept := kept_step hw.kept hstep
  cases hstep with
  | @send i p address results hp =>
    have hpacket := (hw.packet i).after (.send i p address results)
    exact ⟨hkept, hw.packet_after rfl hpacket, fun j o ho => hw.obtained_of_mem _ ho⟩
  | receive hm hdestination hn => exact explained_receive hw hm hdestination hn
  | @fail i e he =>
    obtain ⟨d, hd⟩ := Option.ne_none_iff_exists'.mp (hw.kept.datagram i)
    have hcall : (receivingNothing (w.endpoint i) e).net.results = [.failure e] := rfl
    obtain ⟨g, hrun, hpacket, -⟩ := receiveFrom_failure inet hd hcall he
    refine ⟨hkept, hw.packet_after rfl ?_, fun j o ho => hw.obtained_of_mem _ ho⟩
    -- a failed call leaves the packet alone
    rw [hrun, finalState_ok, left, hpacket]
    exact (hw.packet i).after _
  | take i p =>
    refine ⟨hkept, hw.packet_after rfl ?_, fun j o ho => hw.obtained_of_mem _ ho⟩
    exact .inr (.inl (List.mem_append_right _ (List.mem_singleton_self _)))
  | foreign hforeign =>
    exact ⟨hkept, fun j => (hw.packet j).after _, fun j o ho => hw.obtained_of_mem _ ho⟩

theorem explained_of_reaches (hw : w.Fresh) (h : Reaches (Step inet name) w events w') :
    w'.Explained inet name w events :=
  h.trace (P := fun labels v => v.Explained inet name w labels) hw.explained
    fun _ _ _ _ hexplained hstep => explained_step hexplained hstep

end Explained

end Kept

/-! ## Whole packets -/

section Whole

/-- A packet that is the start of another one is all of it, since both begin with their sizes. -/
theorem eq_of_prefix {p q : Packet} (hp : p.Consistent) (hq : q.Consistent)
    (h : q.data <+: p.data) : q.data = p.data := by
  have hheader : q.data.take 2 = p.data.take 2 := by
    obtain ⟨rest, hrest⟩ := h
    rw [← hrest, List.take_append_of_le_length hq.length.1]
  have hqsize := (q.verifySize_iff.mp hq.header).2
  have hpsize := (p.verifySize_iff.mp hp.header).2
  rw [hqsize, hpsize, toBytes_eq_iff, Nat.mod_eq_of_lt, Nat.mod_eq_of_lt] at hheader
  · apply h.eq_of_length
    have hqlen := hq.length
    have hplen := hp.length
    omega
  · have hplen := hp.length
    omega
  · have hqlen := hq.length
    omega

theorem announces_of_consistent {p : Packet} (hp : p.Consistent) :
    Announces p.data p.data.length := by
  have hlen := hp.length
  have hsize : p.data.length - 2 < 2 ^ (8 * 2) := by omega
  rw [Socket.announces_iff (by simp only [datagramSize]; omega),
    (p.verifySize_iff.mp hp.header).2, ofBytes_toBytes_of_lt hsize]
  exact ⟨hlen.1, by simp only [datagramSize]; omega, rfl⟩

variable {inet : InetText} {name : I → Sockaddr} {w w' : Network I} {events : List (Event I)}
  {i j : I} {p q : Packet} {a : Address}

/-- The packet was sent to this socket from the address, and is what was sent, byte for byte; unless
it came from somebody who does not use the library, and then it is the start of what was sent. -/
structure Genuine (inet : InetText) (name : I → Sockaddr) (w : Network I) (i : I) (q : Packet)
    (a : Address) : Prop where
  header : q.verifySize = true
  readPos : q.readPos = 2
  sent : ∃ source, Address.fromNative inet source = .ok a ∧
    ((∃ j p, source = name j ∧ (p, name i) ∈ w.sent j ∧ q.data = p.data) ∨
      ((∀ j, source ≠ name j) ∧
        ∃ bytes, ⟨source, name i, bytes⟩ ∈ w.messages ∧ q.data <+: bytes))

theorem MadeOf.genuine (hq : w.MadeOf inet name i q a) (hw : w.Kept name) :
    w.Genuine inet name i q a := by
  obtain ⟨⟨m, hm, hdestination, haddress, hpart⟩, hconsistent, hread⟩ := hq
  refine ⟨hconsistent.header, hread, m.source, haddress, ?_⟩
  rcases hw.messages m hm with ⟨j, p, hsource, hsent, hbytes⟩ | hforeign
  · rw [hdestination] at hsent
    exact .inl ⟨j, p, hsource, hsent,
      eq_of_prefix (hw.sent j _ hsent) hconsistent (hpart.trans hbytes)⟩
  · refine .inr ⟨hforeign, m.bytes, ?_, hpart⟩
    rw [← hdestination]
    exact hm

variable [DecidableEq I]

/-- A packet in use that arrives as a whole is obtained. -/
theorem exists_obtained (hw : w.Kept name) (hp : p.Consistent) {m : Message}
    (hm : m.bytes = p.data) (haddress : Address.fromNative inet m.source = .ok a) :
    ∃ q, (w.after inet name (.receive i m p.data.length)).obtained i = w.obtained i ++ [(q, a)] ∧
      q.data = p.data := by
  have hlen := hp.length
  obtain ⟨d, hd⟩ := Option.ne_none_iff_exists'.mp (hw.datagram i)
  have hreceives : Receives (receiving (w.endpoint i) m p.data.length) p.data.length := by
    refine ⟨rfl, ?_⟩
    show p.data.length ≤ min datagramSize m.bytes.length
    rw [hm]
    simp only [datagramSize]
    omega
  have hall : m.bytes.take p.data.length = p.data := by rw [hm, List.take_length]
  rcases receiveFrom_cases hd hreceives (by omega) haddress with
    ⟨-, g, hrun, hpacket, -⟩ | ⟨hbad, -⟩
  · refine ⟨g.packet, ?_, ?_⟩
    · simp only [after, Function.update_self, hrun, handsOver]
    · rw [hpacket]
      exact hall
  -- the header of a packet in use announces its size
  · exfalso
    apply hbad
    show Announces (m.bytes.take p.data.length) p.data.length
    rw [hall]
    exact announces_of_consistent hp

/-- **Integrity.** In every run, whatever is lost, repeated, reordered or cut short, a packet that
is obtained is genuine; unless nothing has arrived of a datagram.  Then its sender is reported, with
the packet from before: the first one of the program, one it has taken to receive into, or a genuine
one that it has obtained from somebody. -/
theorem obtained_sent (hw : w.Fresh) (h : Reaches (Step inet name) w events w')
    (ho : (q, a) ∈ w'.obtained i) :
    w'.Genuine inet name i q a ∨
      (∃ m ∈ w'.messages, m.destination = name i ∧ Address.fromNative inet m.source = .ok a ∧
        .receive i m 0 ∈ events) ∧
      (q = (w.endpoint i).packet ∨ .take i q ∈ events ∨
        ∃ a', (q, a') ∈ w'.obtained i ∧ w'.Genuine inet name i q a') := by
  have hexplained := explained_of_reaches hw h
  rcases hexplained.obtained i _ ho with hmade | ⟨hmessage, horigin⟩
  · exact .inl (hmade.genuine hexplained.kept)
  · refine .inr ⟨hmessage, ?_⟩
    rcases horigin with hstart | htake | ⟨a', hobtained, hmade⟩
    · exact .inl hstart
    · exact .inr (.inl htake)
    · exact .inr (.inr ⟨a', hobtained, hmade.genuine hexplained.kept⟩)

/-- **Arrival.** In every run, a packet that a program has sent is obtained whenever it arrives as
a whole. -/
theorem obtains_whole (hw : w.Fresh) (h : Reaches (Step inet name) w events w')
    (hsent : (p, name i) ∈ w'.sent j) (haddress : Address.fromNative inet (name j) = .ok a) :
    ∃ q, (w'.after inet name (.receive i ⟨name j, name i, p.data⟩ p.data.length)).obtained i =
      w'.obtained i ++ [(q, a)] ∧ q.data = p.data := by
  have hkept := kept_of_reaches hw h
  exact exists_obtained hkept (hkept.sent j _ hsent) rfl haddress

end Whole

/-! ## Two programs -/

section Pair

/-- Two sockets at two ports of the loopback address. -/
def pair : Network Bool where
  endpoint _ :=
    { socket := { protocol := .udp, datagram := some Datagram.zeroed }, packet := Packet.fresh }
  sent _ := []
  obtained _ := []

def pairNames : Bool → Sockaddr
  | false => .inet (htons 80) [127, 0, 0, 1]
  | true => .inet (htons 81) [127, 0, 0, 1]

/-- The first program sends a byte to the second one. -/
def byteSent : Event Bool := .send false Socket.single ⟨"127.0.0.1", 81, .inet⟩ [.count 3]

theorem fresh_pair : pair.Fresh where
  datagram _ h := by cases h
  messages := rfl
  sent _ := rfl
  obtained _ := rfl

theorem reaches_byteSent : Reaches (Step .loopback pairNames) pair [byteSent]
    (pair.after .loopback pairNames byteSent) :=
  .cons (.send _ _ Socket.used_single) (.nil _)

/-- It arrives. -/
def byteReceived : Event Bool :=
  .receive true ⟨pairNames false, pairNames true, [1, 0, 7]⟩ Socket.single.data.length

theorem obtains_whole_pair :
    ∃ q, ((pair.after .loopback pairNames byteSent).after .loopback pairNames
        byteReceived).obtained true = [(q, ⟨"127.0.0.1", 80, .inet⟩)] ∧ q.data = [1, 0, 7] :=
  obtains_whole (p := Socket.single) (i := true) (j := false) fresh_pair reaches_byteSent
    (List.mem_singleton.mpr rfl) rfl

theorem obtained_sent_pair :
    ∃ q a, ((pair.after .loopback pairNames byteSent).after .loopback pairNames
        byteReceived).obtained true = [(q, a)] ∧
      ((pair.after .loopback pairNames byteSent).after .loopback pairNames
        byteReceived).Genuine .loopback pairNames true q a := by
  obtain ⟨q, hq, -⟩ := exists_obtained (i := true) (p := Socket.single)
    (m := ⟨pairNames false, pairNames true, [1, 0, 7]⟩)
    (kept_of_reaches fresh_pair reaches_byteSent) (Packet.kept_of_used Socket.used_single).2 rfl
    (rfl : Address.fromNative .loopback (pairNames false) = .ok ⟨"127.0.0.1", 80, .inet⟩)
  have hreceived := reaches_byteSent.snoc (.receive (i := true) (n := Socket.single.data.length)
    (List.mem_singleton.mpr rfl) rfl (by decide))
  have hmem : (q, ⟨"127.0.0.1", 80, .inet⟩) ∈ ((pair.after .loopback pairNames byteSent).after
      .loopback pairNames byteReceived).obtained true := by
    rw [byteReceived, hq]
    exact List.mem_append_right _ (List.mem_singleton.mpr rfl)
  refine ⟨q, _, hq, (obtained_sent fresh_pair hreceived hmem).resolve_right ?_⟩
  -- all of the datagram has arrived
  rintro ⟨⟨m, -, -, -, hempty⟩, -⟩
  simp [byteSent, Socket.single] at hempty

/-- The first program, and what has arrived of its datagram, are reported once more where nothing of
it arrives. -/
example :
    let w := (pair.after .loopback pairNames byteSent).after .loopback pairNames byteReceived
    (w.after .loopback pairNames (.receive true ⟨pairNames false, pairNames true, [1, 0, 7]⟩
      0)).obtained true = w.obtained true ++ w.obtained true := rfl

end Pair

end Network

end Sws.UdpSocket
