import Sws.Packet.Header
import Sws.Socket.Reassembly
import Sws.Socket.SendOrder

/-!
# A Connection

Two programs that send each other packets over one TCP connection: `send(Packet&)` and
`receive(Packet&)` at both ends, in any order, with any results of the native calls.

## Model

- Native sends add to the bytes in transit, native receives take from those that have arrived,
  and bytes arrive in any portions at any time, or never.
- A call is one action, and leaves what it has done behind, however it ends.  A receive that
  waits inside a frame and one that is begun there do the same (`Serves`).
- The history of a connection (`stream`, `sent`, `torn`, `obtained`) is what the theorems are
  about.  No call looks at it.

## Key Results

- `send_accepts`: a call adds a part of its packet to the stream, from the start of the packet.
- `receive_reaches`: a call takes the steps of a `Receiver`, and hands over what that takes.
-/

namespace Sws.Socket

open Sws.Foundation
open Packet (frame Used)

/-! ## The two ends -/

inductive Side
  | client
  | server
  deriving DecidableEq, Repr

namespace Side

def peer : Side → Side
  | client => server
  | server => client

@[simp] theorem peer_peer (s : Side) : s.peer.peer = s := by
  cases s <;> rfl

theorem peer_ne (s : Side) : s.peer ≠ s := by
  cases s <;> decide

/-- An end is a given one, or the other. -/
theorem eq_or_eq_peer (s d : Side) : s = d ∨ s = d.peer := by
  cases s <;> cases d <;> decide

end Side

structure Endpoint where
  socket : Socket
  /-- The packet that is received into. -/
  packet : Packet
  /-- The last error of the thread that makes the calls. -/
  lastError : SocketError := .none
  /-- The bytes that have arrived. -/
  inbound : List UInt8 := []
  deriving DecidableEq, Repr

/-- The host of a call that sends a packet. -/
def Endpoint.sending (e : Endpoint) (p : Packet) (results : List NativeResult) : Host where
  socket := e.socket
  packet := p
  net := { lastError := e.lastError, results }

/-- The host of a call that receives. -/
def Endpoint.receiving (e : Endpoint) (results : List NativeResult) : Host where
  socket := e.socket
  packet := e.packet
  net := { lastError := e.lastError, results, inbound := e.inbound }

structure Connection where
  endpoint : Side → Endpoint
  /-- The bytes of a side that are on their way. -/
  transit : Side → List UInt8
  /-- All bytes of a side that native sends have accepted. -/
  stream : Side → List UInt8
  /-- The packets of a side that were accepted whole. -/
  sent : Side → List Packet
  /-- A packet of a side was accepted in part. -/
  torn : Side → Bool
  /-- The packets that a side has obtained. -/
  obtained : Side → List Packet

/-! ## Actions -/

inductive Action
  | send (packet : Packet) (results : List NativeResult)
  | receive (results : List NativeResult)
  /-- The program goes on with another packet to receive into. -/
  | take (packet : Packet)
  /-- Some of the bytes that the side has sent arrive. -/
  | arrive (n : ℕ)
  /-- Some other call on the thread fails. -/
  | fail (e : SocketError)
  deriving DecidableEq, Repr

/-- The packet that a call of `receive` hands over: it returns, no frame is pending, and the
packet holds something.  The state that is returned is of no account: with a frame pending it may be
`done`, and with a complete frame `in_progress`, if an earlier call on the thread has failed. -/
def handed : EStateM.Result Fault Host SocketState → List Packet
  | .ok _ h => if h.packet.recvTarget < 0 ∧ h.packet.empty = false then [h.packet] else []
  | .error _ _ => []

namespace Connection

/-- The connection after an action of one side. -/
def after (c : Connection) (s : Side) : Action → Connection
  | .send p results =>
    let h := finalState (send.run ((c.endpoint s).sending p results))
    let bytes := h.net.accepted
    { c with
      endpoint := Function.update c.endpoint s
        { c.endpoint s with socket := h.socket, lastError := h.net.lastError }
      transit := Function.update c.transit s (c.transit s ++ bytes)
      stream := Function.update c.stream s (c.stream s ++ bytes)
      sent := Function.update c.sent s (c.sent s ++ if bytes = p.data then [p] else [])
      torn := Function.update c.torn s (c.torn s || decide (bytes ≠ [] ∧ bytes ≠ p.data)) }
  | .receive results =>
    let r := receive.run ((c.endpoint s).receiving results)
    let h := finalState r
    { c with
      endpoint := Function.update c.endpoint s
        { socket := h.socket, packet := h.packet, lastError := h.net.lastError,
          inbound := h.net.inbound }
      obtained := Function.update c.obtained s (c.obtained s ++ handed r) }
  | .take p =>
    { c with endpoint := Function.update c.endpoint s { c.endpoint s with packet := p } }
  | .arrive n =>
    { c with
      transit := Function.update c.transit s ((c.transit s).drop n)
      endpoint := Function.update c.endpoint s.peer { c.endpoint s.peer with
        inbound := (c.endpoint s.peer).inbound ++ (c.transit s).take n } }
  | .fail e =>
    { c with endpoint := Function.update c.endpoint s { c.endpoint s with lastError := e } }

/-- What a program can do: it sends packets in use, and receives into packets in use into which
nothing is being received yet.  The results of a receive are those that it uses. -/
inductive Step : Connection → Side × Action → Connection → Prop
  | send {c : Connection} {s : Side} {p : Packet} (results : List NativeResult)
      (hp : Used (.live p)) : Step c (s, .send p results) (c.after s (.send p results))
  | receive {c : Connection} {s : Side} {results : List NativeResult}
      (hall : (finalState (receive.run ((c.endpoint s).receiving results))).net.results = []) :
      Step c (s, .receive results) (c.after s (.receive results))
  | take {c : Connection} {s : Side} {p : Packet} (hp : Used (.live p)) (hidle : Idle p) :
      Step c (s, .take p) (c.after s (.take p))
  | arrive {c : Connection} {s : Side} (n : ℕ) : Step c (s, .arrive n) (c.after s (.arrive n))
  | fail {c : Connection} {s : Side} (e : SocketError) : Step c (s, .fail e) (c.after s (.fail e))

/-- A connection of two sockets on which nothing has been sent, with packets to receive into. -/
structure Fresh (c : Connection) : Prop where
  protocol : ∀ s, (c.endpoint s).socket.protocol = .tcp
  packet : ∀ s, Used (.live (c.endpoint s).packet)
  idle : ∀ s, Idle (c.endpoint s).packet
  inbound : ∀ s, (c.endpoint s).inbound = []
  transit : ∀ s, c.transit s = []
  stream : ∀ s, c.stream s = []
  sent : ∀ s, c.sent s = []
  torn : ∀ s, c.torn s = false
  obtained : ∀ s, c.obtained s = []

end Connection

/-! ## One send -/

section Send

variable {h : Host}

theorem protocol_resetSent (r : EStateM.Result Fault Host SocketState) :
    (finalState (resetSent r)).socket = (finalState r).socket := by
  cases r <;> rfl

theorem sendable_of_used (hstream : h.socket.protocol ≠ .udp) (hp : Used (.live h.packet))
    (hfull : h.packet.empty = false) : Sendable h := by
  have hsound := (Packet.kept_of_used hp).1
  exact ⟨hstream, hfull, hsound.sendPos, hsound.inLimits.1⟩

/-- **One send.** What the native calls accept of a packet is its start, and nothing of an empty
one. -/
theorem send_accepts (hstream : h.socket.protocol ≠ .udp) (hp : Used (.live h.packet))
    (hnone : h.net.accepted = []) :
    (finalState (send.run h)).net.accepted <+: h.packet.data ∧
      (h.packet.empty = true → (finalState (send.run h)).net.accepted = []) ∧
      (finalState (send.run h)).socket.protocol = h.socket.protocol := by
  cases hempty : h.packet.empty with
  | true =>
    rw [send_empty hempty]
    have haccepted : h.net.accepted <+: h.packet.data := by
      rw [hnone]
      exact List.nil_prefix
    exact ⟨haccepted, fun _ => hnone, rfl⟩
  | false =>
    have hs := sendable_of_used hstream hp hempty
    have horder := rounds_inOrder hs
    have haccepted := horder.accepted_eq
    rw [hnone, List.nil_append] at haccepted
    rw [send_rounds hs, finalState_resetSent, protocol_resetSent, haccepted]
    refine ⟨List.take_prefix .., ?_, horder.protocol_eq⟩
    intro h
    cases h

end Send

/-! ## One receive -/

section Receive

variable {r : Receiver} {h : Host}

/-- The payload of a packet. -/
def payload (p : Packet) : List UInt8 := p.data.drop 2

theorem handed_ok (state : SocketState) (h : Host) :
    handed (.ok state h) =
      if h.packet.recvTarget < 0 ∧ h.packet.empty = false then [h.packet] else [] := rfl

theorem map_handed_ok (state : SocketState) (h : Host) :
    (handed (.ok state h)).map payload = completed h.packet := by
  rw [handed_ok, completed]
  split_ifs <;> rfl

/-- **One receive.** A call takes the steps of the receiver that it serves, one for each native
result, and hands over the payload that those take. -/
theorem receive_reaches (hm : Matches r h) :
    ∃ used r', h.net.results = used ++ (finalState (receive.run h)).net.results ∧
      Reaches Receiver.Step r used r' ∧ Matches r' (finalState (receive.run h)) ∧
      r'.taken = r.taken ++ (handed (receive.run h)).map payload := by
  induction hresults : h.net.results generalizing r h with
  | nil =>
    rcases serves hm with ⟨-, hres, -⟩ | ⟨-, hres, -⟩ | ⟨hrun, hleft, -, hm'⟩
    · rw [hresults] at hres
      cases hres
    · rw [hresults] at hres
      cases hres
    · rw [hrun]
      exact ⟨[], r, (hleft.trans hresults).symm, .nil r, hm', (List.append_nil _).symm⟩
  | cons res results ih =>
    rcases serves hm with ⟨hrun, hres, hstep, htaken, hm'⟩ | ⟨hrun, hres, hstep, htaken, hm'⟩ |
      ⟨hrun, hleft, -, hm'⟩
    · -- the call goes on, as one does that is begun here
      obtain ⟨rfl, hrest⟩ := List.cons_eq_cons.mp (hresults.symm.trans hres)
      obtain ⟨used, r', hsplit, hreaches, hm'', htaken'⟩ := ih hm' hrest.symm
      rw [hrun]
      refine ⟨res :: used, r', ?_, hreaches.cons hstep, hm'', ?_⟩
      · rw [hsplit, List.cons_append]
      · rw [htaken', htaken]
    · obtain ⟨rfl, hrest⟩ := List.cons_eq_cons.mp (hresults.symm.trans hres)
      rw [hrun, map_handed_ok]
      refine ⟨[res], _, ?_, (Reaches.nil r).snoc hstep, hm', htaken⟩
      rw [hrest]
      rfl
    · rw [hrun]
      exact ⟨[], r, (hleft.trans hresults).symm, .nil r, hm', (List.append_nil _).symm⟩

/-- A packet into which a program receives: the reads of what it will hold begin at its start. -/
def Ready (p : Packet) : Prop :=
  p.InLimits ∧ (Idle p ∨ p.readPos = 2)

theorem ready_of_used {p : Packet} (hp : Used (.live p)) (hidle : Idle p) : Ready p :=
  ⟨(Packet.kept_of_used hp).1.inLimits, .inl hidle⟩

theorem Holds.idle_or_awaiting {p : Packet} {awaited : Option ℕ} (h : Holds p awaited) :
    Idle p ∨ ∃ t : ℕ, p.recvTarget = t ∧ 0 < t ∧ t ≤ 65535 := by
  cases awaited with
  | none => exact .inl h
  | some t => exact .inr ⟨t, h.recvTarget, h.announced⟩

section Ready

variable {p q : Packet} {t : ℕ}

theorem Awaiting.readPos (hq : Awaiting p q t) (hp : Ready p) : q.readPos = 2 := by
  cases hq with
  | announced hidle ht => rfl
  | resumed ht hpos =>
    rcases hp.2 with hidle | hread
    · exact absurd hidle.2 (by omega)
    · exact hread

theorem Progress.readPos (hq : Progress p q) (hp : Ready p) : q.readPos = 2 := by
  cases hq with
  | cleared hidle => rfl
  | framed hq hfits => exact hq.readPos hp
  | received hq hfits hlen => exact hq.readPos hp

theorem inLimits_of_consistent (hp : p.Consistent) : p.InLimits := by
  obtain ⟨hlen, hpos, -⟩ := hp
  unfold Packet.InLimits
  simp only [datagramSize]
  omega

theorem Overflow.ready (hq : Overflow p q) (hp : Ready p) : Ready q := by
  obtain ⟨hawaiting, -, hrebuilt⟩ := hq
  refine ⟨⟨?_, hrebuilt.writePos⟩, .inr ?_⟩
  · rw [hrebuilt.length_eq]
    exact (Packet.clampSize_mem _).2
  · rw [hrebuilt.readPos]
    exact hawaiting.readPos hp

/-- What a call hands over can be read from its start, and its header is consistent. -/
theorem receive_ready (hm : Matches r h) (hp : Ready h.packet) :
    Ready (finalState (receive.run h)).packet ∧
      ∀ q ∈ handed (receive.run h), q.readPos = 2 ∧ q.Consistent := by
  have hprogress : ∀ {q : Packet}, Progress h.packet q → Ready q := by
    intro q hq
    exact ⟨inLimits_of_consistent (Packet.consistent_progress hq), .inr (hq.readPos hp)⟩
  have heffect := (receiveTcp_effect hp.1 hm.packet.idle_or_awaiting).run h ⟨rfl, hm.protocol⟩
  cases hrun : receive.run h with
  | ok state g =>
    rw [show receive h = _ from hrun] at heffect
    refine ⟨hprogress heffect, ?_⟩
    intro q hq
    rw [handed_ok] at hq
    split_ifs at hq
    · rw [List.mem_singleton.mp hq]
      exact ⟨Progress.readPos heffect hp, Packet.consistent_progress heffect⟩
    · cases hq
  | error e g =>
    rw [show receive h = _ from hrun] at heffect
    refine ⟨?_, fun q hq => by cases hq⟩
    rcases heffect with ⟨-, hq⟩ | ⟨-, hq⟩
    · exact hprogress hq
    · exact Overflow.ready hq hp

end Ready

end Receive

/-! ## What every run keeps -/

/-- The receiver `r` is what the program at the side `s` has done. -/
structure Tracks (c : Connection) (s : Side) (r : Receiver) : Prop where
  inbound : (c.endpoint s).inbound = r.stream
  packet : Holds (c.endpoint s).packet r.awaited
  taken : r.taken = (c.obtained s).map payload

/-- What holds of an end whatever the calls return. -/
structure Endpoint.Kept (e : Endpoint) : Prop where
  protocol : e.socket.protocol ≠ .udp
  ready : Ready e.packet

/-- What holds of a connection whatever the calls return. -/
structure WellKept (c : Connection) : Prop where
  endpoint : ∀ s, (c.endpoint s).Kept
  /-- What was accepted whole had a payload. -/
  sent : ∀ s, ∀ p ∈ c.sent s, p.Consistent ∧ p.empty = false
  obtained : ∀ s, ∀ q ∈ c.obtained s, q.readPos = 2 ∧ q.Consistent

section WellKept

variable {c c' : Connection} {s t : Side} {r : Receiver} {a : Action} {results : List NativeResult}

theorem Tracks.matches (hr : Tracks c s r) (hprotocol : (c.endpoint s).socket.protocol ≠ .udp)
    (results : List NativeResult) : Matches r ((c.endpoint s).receiving results) :=
  ⟨hprotocol, hr.inbound, hr.packet⟩

/-- A call at a side takes the steps of its receiver. -/
theorem tracks_receive (hr : Tracks c s r) (hprotocol : (c.endpoint s).socket.protocol ≠ .udp)
    (hall : (finalState (receive.run ((c.endpoint s).receiving results))).net.results = []) :
    ∃ r', Reaches Receiver.Step r results r' ∧ Tracks (c.after s (.receive results)) s r' := by
  obtain ⟨used, r', hsplit, hreaches, hm, htaken⟩ := receive_reaches (hr.matches hprotocol results)
  rw [hall, List.append_nil] at hsplit
  have hused : used = results := hsplit.symm
  subst hused
  refine ⟨r', hreaches, ?_, ?_, ?_⟩
  · simp only [Connection.after, Function.update_self]
    exact hm.stream
  · simp only [Connection.after, Function.update_self]
    exact hm.packet
  · simp only [Connection.after, Function.update_self]
    rw [htaken, hr.taken, List.map_append]

/-- What holds of all holds of them after one was replaced. -/
theorem forall_update {ι α : Type} [DecidableEq ι] {P : α → Prop} {f : ι → α}
    (hf : ∀ u, P (f u)) {i : ι} {a : α} (ha : P a) : ∀ u, P (Function.update f i a u) :=
  (Function.forall_update_iff f fun _ => P).mpr ⟨ha, fun u _ => hf u⟩

/-- A packet that was accepted whole is not empty. -/
theorem full_of_accepted {p : Packet} (hprotocol : (c.endpoint s).socket.protocol ≠ .udp)
    (hp : Used (.live p))
    (hall : (finalState (send.run ((c.endpoint s).sending p results))).net.accepted = p.data) :
    p.Consistent ∧ p.empty = false := by
  have haccepts := send_accepts (h := (c.endpoint s).sending p results) hprotocol hp rfl
  have hconsistent := (Packet.kept_of_used hp).2
  refine ⟨hconsistent, ?_⟩
  -- nothing is accepted of an empty packet, which has a header
  by_contra hempty
  have hnone := haccepts.2.1 (by rw [← Bool.not_eq_false]; exact hempty)
  have hlen := hconsistent.length
  rw [hnone] at hall
  rw [← hall, List.length_nil] at hlen
  omega

/-- **One action** keeps what every run keeps. -/
theorem wellKept_step (hc : WellKept c) (htracked : ∀ s, ∃ r, Tracks c s r)
    (hstep : Connection.Step c (t, a) c') : WellKept c' := by
  obtain ⟨hprotocol, hready⟩ := hc.endpoint t
  cases hstep with
  | @send _ p results hp =>
    have haccepts := send_accepts (h := (c.endpoint t).sending p results) hprotocol hp rfl
    refine ⟨forall_update hc.endpoint ⟨?_, hready⟩, forall_update
      (P := fun ps : List Packet => ∀ q ∈ ps, q.Consistent ∧ q.empty = false) hc.sent ?_,
      hc.obtained⟩
    · rw [haccepts.2.2]
      exact hprotocol
    · intro q hq
      rcases List.mem_append.mp hq with hold | hnew
      · exact hc.sent t q hold
      · split_ifs at hnew with hall
        · rw [List.mem_singleton.mp hnew]
          exact full_of_accepted hprotocol hp hall
        · cases hnew
  | @receive _ results hall =>
    -- the side behaves as the receiver that tracks it
    obtain ⟨r, hr⟩ := htracked t
    have hm := hr.matches hprotocol results
    obtain ⟨used, r', -, -, hm', -⟩ := receive_reaches hm
    obtain ⟨hready', hhanded⟩ := receive_ready hm hready
    refine ⟨forall_update hc.endpoint ⟨hm'.protocol, hready'⟩, hc.sent, forall_update
      (P := fun qs : List Packet => ∀ q ∈ qs, q.readPos = 2 ∧ q.Consistent) hc.obtained ?_⟩
    intro q hq
    rcases List.mem_append.mp hq with hold | hnew
    · exact hc.obtained t q hold
    · exact hhanded q hnew
  | take hp hidle =>
    exact ⟨forall_update hc.endpoint ⟨hprotocol, ready_of_used hp hidle⟩, hc.sent, hc.obtained⟩
  | arrive n =>
    obtain ⟨hprotocol', hready'⟩ := hc.endpoint t.peer
    exact ⟨forall_update hc.endpoint ⟨hprotocol', hready'⟩, hc.sent, hc.obtained⟩
  | fail e => exact ⟨forall_update hc.endpoint ⟨hprotocol, hready⟩, hc.sent, hc.obtained⟩

theorem Connection.Fresh.wellKept (hc : c.Fresh) : WellKept c where
  endpoint s := ⟨ne_udp_of_tcp (hc.protocol s), ready_of_used (hc.packet s) (hc.idle s)⟩
  sent s p hp := by
    rw [hc.sent s] at hp
    cases hp
  obtained s q hq := by
    rw [hc.obtained s] at hq
    cases hq

end WellKept

end Sws.Socket
