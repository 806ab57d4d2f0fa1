import Sws.Packet.RoundTrip
import Sws.Socket.Connection
import Sws.Socket.Flow

/-!
# Delivery over a Connection

What a program obtains over a connection is what its peer has sent, packet by packet and in
order, in every run that avoids two things: a send behind a packet that was accepted in part,
and native receives that give a part of what they were asked for.  The library goes on neither
with the one nor with the other (`resumes_iff`, `reassembles_iff`).

Each direction of a connection is seen as a `Flow`, and every action as an event of it.

## Key Results

- `wellKept_step`, `views_step`: a connection goes on as both of its flows do.
- `obtained_inOrder`: nothing is lost, repeated, reordered or made up.
- `obtained_excerpts`: in any run, what is obtained are segments of what was accepted.
-/

namespace Sws.Socket

open Sws.Foundation
open Packet (frame Used Value encodeAll insertAll extractAll)

/-! ## Packets and frames -/

section Frames

variable {p q : Packet}

/-- A packet with a consistent header is the frame of its payload. -/
theorem data_eq_frame (hp : p.Consistent) : p.data = frame (payload p) :=
  Packet.data_of_verifySize hp.header

theorem payload_size (hp : p.Consistent) (hfull : p.empty = false) :
    1 ≤ (payload p).length ∧ (payload p).length ≤ 65533 := by
  have hlen := hp.length
  rw [← Bool.not_eq_true, Packet.empty_iff] at hfull
  simp only [payload, List.length_drop]
  omega

/-- Packets with consistent headers are alike if their payloads are. -/
theorem map_data_of_payload {ps : List Packet} (hps : ∀ p ∈ ps, p.Consistent) :
    ps.map (·.data) = (ps.map payload).map frame := by
  rw [List.map_map]
  apply List.map_congr_left
  intro p hp
  exact data_eq_frame (hps p hp)

end Frames

/-! ## Two flows -/

/-- How the connection looks from the side `s`, which receives what its peer sends. -/
structure Views (c : Connection) (s : Side) (f : Flow) : Prop where
  tracks : Tracks c s f.receiver
  transit : f.transit = c.transit s.peer
  stream : f.stream = c.stream s.peer
  sent : f.sent = (c.sent s.peer).map payload
  torn : f.torn = c.torn s.peer

/-- What the program has to see to: it sends nothing behind a packet that was torn, native receives
do not divide what they are asked for, and no packet is put aside inside a frame. -/
def Connection.Orderly (c : Connection) : Side × Action → Prop
  | (s, .send _ _) => c.torn s = false
  | (s, .receive results) =>
    Undivided (if (c.endpoint s).packet.recvTarget < 0 then none
      else some (c.endpoint s).packet.recvTarget.toNat) (c.endpoint s).inbound results
  | (s, .take _) => Idle (c.endpoint s).packet
  | (_, .arrive _) | (_, .fail _) => True

section Views

variable {c c' : Connection} {s t : Side} {a : Action} {f : Flow}

/-- The size that a packet awaits. -/
theorem awaited_of_holds {p : Packet} {awaited : Option ℕ} (h : Holds p awaited) :
    (if p.recvTarget < 0 then none else some p.recvTarget.toNat) = awaited := by
  cases awaited with
  | none => rw [if_pos h.2]
  | some n =>
    have htarget := h.recvTarget
    rw [if_neg (by omega), htarget, Int.toNat_natCast]

theorem awaited_of_idle {p : Packet} {awaited : Option ℕ} (h : Holds p awaited) (hidle : Idle p) :
    awaited = none := by
  rw [← awaited_of_holds h, if_pos hidle.2]

/-- An action is an event of the flow that a side receives, and an orderly one if it is. -/
def Matched (c : Connection) (s : Side) (f : Flow) (label : Side × Action) (c' : Connection) :
    Prop :=
  ∃ e f', Flow.Step f e f' ∧ Views c' s f' ∧ (c.Orderly label → f.Orderly e)

/-- What changes neither the receiving program nor what comes to it. -/
theorem Views.nothing (hf : Views c s f) {label : Side × Action}
    (hinbound : (c'.endpoint s).inbound = (c.endpoint s).inbound)
    (hpacket : (c'.endpoint s).packet = (c.endpoint s).packet)
    (hobtained : c'.obtained s = c.obtained s) (htransit : c'.transit s.peer = c.transit s.peer)
    (hstream : c'.stream s.peer = c.stream s.peer) (hsent : c'.sent s.peer = c.sent s.peer)
    (htorn : c'.torn s.peer = c.torn s.peer) : Matched c s f label c' := by
  refine ⟨.nothing, f, .nothing, ⟨⟨?_, ?_, ?_⟩, ?_, ?_, ?_, ?_⟩, fun _ => trivial⟩
  · rw [hinbound, hf.tracks.inbound]
  · rw [hpacket]
    exact hf.tracks.packet
  · rw [hobtained, hf.tracks.taken]
  · rw [htransit, hf.transit]
  · rw [hstream, hf.stream]
  · rw [hsent, hf.sent]
  · rw [htorn, hf.torn]

/-- A call at the side that receives, and when it is orderly. -/
theorem Views.receive (hf : Views c s f) (hc : WellKept c) {results : List NativeResult}
    (hall : (finalState (receive.run ((c.endpoint s).receiving results))).net.results = []) :
    (∃ r, Reaches Receiver.Step f.receiver results r ∧
      Views (c.after s (.receive results)) s { f with receiver := r }) ∧
      (c.Orderly (s, .receive results) ↔ f.Orderly (.receive results)) := by
  obtain ⟨r, hrun, hr⟩ := tracks_receive hf.tracks (hc.endpoint s).protocol hall
  refine ⟨⟨r, hrun, hr, hf.transit, hf.stream, hf.sent, hf.torn⟩, ?_⟩
  -- what the packet awaits is what the receiver awaits
  rw [Connection.Orderly, awaited_of_holds hf.tracks.packet, hf.tracks.inbound]
  exact Iff.rfl

/-- What the side does that receives. -/
theorem Views.step_self (hf : Views c s f) (hc : WellKept c)
    (hstep : Connection.Step c (s, a) c') : Matched c s f (s, a) c' := by
  have hne := s.peer_ne
  cases hstep with
  | send results hp => apply hf.nothing <;> simp [Connection.after, hne]
  | arrive n => apply hf.nothing <;> simp [Connection.after, hne, hne.symm]
  | fail e => apply hf.nothing <;> simp [Connection.after]
  | receive hall =>
    obtain ⟨⟨r, hrun, hf'⟩, horderly⟩ := hf.receive hc hall
    exact ⟨.receive _, _, .receive hrun, hf', horderly.mp⟩
  | take hp hidle =>
    refine ⟨.abandon, _, .abandon, ⟨⟨?_, ?_, hf.tracks.taken⟩, hf.transit, hf.stream, hf.sent,
      hf.torn⟩, fun horderly => awaited_of_idle hf.tracks.packet horderly⟩
    · simp only [Connection.after, Function.update_self]
      exact hf.tracks.inbound
    · simp only [Connection.after, Function.update_self]
      exact hidle

/-- What its peer has sent arrives. -/
theorem Views.arrive (hf : Views c s f) (n : ℕ) :
    Views (c.after s.peer (.arrive n)) s { f with
      transit := f.transit.drop n
      receiver := { f.receiver with stream := f.receiver.stream ++ f.transit.take n } } := by
  refine ⟨⟨?_, ?_, hf.tracks.taken⟩, ?_, hf.stream, hf.sent, hf.torn⟩
  · simp only [Connection.after, Side.peer_peer, Function.update_self, hf.tracks.inbound,
      hf.transit]
  · simp only [Connection.after, Side.peer_peer, Function.update_self]
    exact hf.tracks.packet
  · simp only [Connection.after, Function.update_self, hf.transit]

/-- What its peer does. -/
theorem Views.step_peer (hf : Views c s f) (hc : WellKept c)
    (hstep : Connection.Step c (s.peer, a) c') : Matched c s f (s.peer, a) c' := by
  have hne := s.peer_ne
  cases hstep with
  | receive hall => apply hf.nothing <;> simp [Connection.after, hne.symm]
  | take hp hidle => apply hf.nothing <;> simp [Connection.after, hne.symm]
  | fail e => apply hf.nothing <;> simp [Connection.after, hne.symm]
  | arrive n => exact ⟨.arrive n, _, .arrive n, hf.arrive n, fun _ => trivial⟩
  | @send _ p results hp =>
    have hprotocol := (hc.endpoint s.peer).protocol
    obtain ⟨hfirst, hempty, -⟩ :=
      send_accepts (h := (c.endpoint s.peer).sending p results) hprotocol hp rfl
    have hconsistent := (Packet.kept_of_used hp).2
    have hdata := data_eq_frame hconsistent
    -- bytes are accepted of a packet that has a payload
    have hsize : (finalState (send.run ((c.endpoint s.peer).sending p results))).net.accepted ≠ [] →
        1 ≤ (payload p).length ∧ (payload p).length ≤ 65533 := by
      intro hsome
      apply payload_size hconsistent
      rw [← Bool.not_eq_true]
      exact fun h => hsome (hempty h)
    have hbytes : (finalState (send.run ((c.endpoint s.peer).sending p results))).net.accepted <+:
        frame (payload p) := by
      rw [← hdata]
      exact hfirst
    refine ⟨.accept (payload p) _, _, .accept hsize hbytes, ⟨⟨?_, ?_, hf.tracks.taken⟩, ?_, ?_, ?_,
      ?_⟩, ?_⟩
    · simp only [Connection.after, Function.update_of_ne hne.symm]
      exact hf.tracks.inbound
    · simp only [Connection.after, Function.update_of_ne hne.symm]
      exact hf.tracks.packet
    · simp only [Connection.after, Function.update_self, hf.transit]
    · simp only [Connection.after, Function.update_self, hf.stream]
    · simp only [Connection.after, Function.update_self, hf.sent, List.map_append, ← hdata]
      split_ifs <;> rfl
    · simp only [Connection.after, Function.update_self, hf.torn, ← hdata]
    · intro horderly
      exact hf.torn.trans horderly

/-- **One action** is one event of each flow. -/
theorem Views.step (hf : Views c s f) (hc : WellKept c) (hstep : Connection.Step c (t, a) c') :
    Matched c s f (t, a) c' := by
  rcases t.eq_or_eq_peer s with rfl | rfl
  · exact hf.step_self hc hstep
  · exact hf.step_peer hc hstep

theorem Connection.Fresh.views (hc : c.Fresh) (s : Side) : Views c s .start where
  tracks := by
    refine ⟨hc.inbound s, hc.idle s, ?_⟩
    rw [hc.obtained s]
    rfl
  transit := (hc.transit s.peer).symm
  stream := (hc.stream s.peer).symm
  sent := by
    rw [hc.sent s.peer]
    rfl
  torn := (hc.torn s.peer).symm

end Views

/-! ## Whole runs -/

section Runs

variable {c c' : Connection} {s : Side} {labels : List (Side × Action)}

/-- What holds of a connection and of both of its flows. -/
def Kept (c : Connection) : Prop := WellKept c ∧ ∀ s, ∃ f, Views c s f

theorem kept_step {label : Side × Action} (hc : Kept c) (hstep : Connection.Step c label c') :
    Kept c' := by
  obtain ⟨hkept, hviews⟩ := hc
  refine ⟨wellKept_step hkept (fun s => ?_) hstep, fun s => ?_⟩
  · obtain ⟨f, hf⟩ := hviews s
    exact ⟨f.receiver, hf.tracks⟩
  · obtain ⟨f, hf⟩ := hviews s
    obtain ⟨e, f', -, hf', -⟩ := hf.step hkept hstep
    exact ⟨f', hf'⟩

theorem kept_of_reaches (hc : c.Fresh) (h : Reaches Connection.Step c labels c') : Kept c' :=
  h.invariant (fun _ _ _ hkept hstep => kept_step hkept hstep)
    ⟨hc.wellKept, fun s => ⟨_, hc.views s⟩⟩

/-- Runs of a connection are runs of its flows. -/
theorem flow_of_reaches (hc : c.Fresh) (h : Reaches Connection.Step c labels c') (s : Side) :
    ∃ events f, Reaches Flow.Step .start events f ∧ Views c' s f := by
  have hsimulation := h.simulation (T := Flow.Step) (R := fun c f => Kept c ∧ Views c s f) ?_
    ⟨⟨hc.wellKept, fun s => ⟨_, hc.views s⟩⟩, hc.views s⟩
  · obtain ⟨events, f, hrun, -, hf⟩ := hsimulation
    exact ⟨events, f, hrun, hf⟩
  · rintro d label d' f ⟨hd, hf⟩ hstep
    obtain ⟨e, f', hstep', hf', -⟩ := hf.step hd.1 hstep
    exact ⟨e, f', hstep', kept_step hd hstep, hf'⟩

/-- A run of actions that the program has seen to. -/
abbrev OrderlyStep (c : Connection) (label : Side × Action) (c' : Connection) : Prop :=
  Connection.Step c label c' ∧ c.Orderly label

/-- **Orderly runs** of a connection are orderly runs of its flows. -/
theorem flow_of_orderly (hc : c.Fresh) (h : Reaches OrderlyStep c labels c') (s : Side) :
    ∃ events f, Reaches (fun f e f' => Flow.Step f e f' ∧ f.Orderly e) .start events f ∧
      WellKept c' ∧ Views c' s f := by
  have hsimulation := h.simulation
    (T := fun f e f' => Flow.Step f e f' ∧ f.Orderly e)
    (R := fun c f => Kept c ∧ Views c s f) ?_ ⟨⟨hc.wellKept, fun s => ⟨_, hc.views s⟩⟩, hc.views s⟩
  · obtain ⟨events, f, hrun, ⟨hkept, -⟩, hf⟩ := hsimulation
    exact ⟨events, f, hrun, hkept, hf⟩
  · rintro d label d' f ⟨hd, hf⟩ ⟨hstep, horderly⟩
    obtain ⟨e, f', hstep', hf', he⟩ := hf.step hd.1 hstep
    exact ⟨e, f', ⟨hstep', he horderly⟩, kept_step hd hstep, hf'⟩

theorem consistent_sent (hc : WellKept c) (s : Side) : ∀ p ∈ c.sent s, p.Consistent :=
  fun p hp => (hc.sent s p hp).1

theorem consistent_obtained (hc : WellKept c) (s : Side) : ∀ q ∈ c.obtained s, q.Consistent :=
  fun q hq => (hc.obtained s q hq).2

/-- **Delivery.** In every orderly run the packets that a side has obtained are the first ones of
those that its peer has sent, byte for byte and in the same order.  They are all of them when
nothing is on its way and the packet that is received into awaits nothing. -/
theorem obtained_inOrder (hc : c.Fresh) (h : Reaches OrderlyStep c labels c') (s : Side) :
    (c'.obtained s).map (·.data) <+: (c'.sent s.peer).map (·.data) ∧
      ((c'.endpoint s).packet.recvTarget < 0 → (c'.endpoint s).inbound = [] →
        c'.transit s.peer = [] →
        (c'.obtained s).map (·.data) = (c'.sent s.peer).map (·.data)) := by
  obtain ⟨events, f, hrun, hkept, hf⟩ := flow_of_orderly hc h s
  obtain ⟨-, hordered⟩ := Flow.ordered_of_reaches hrun
  rw [map_data_of_payload (consistent_obtained hkept s),
    map_data_of_payload (consistent_sent hkept s.peer), ← hf.tracks.taken, ← hf.sent]
  refine ⟨hordered.taken_prefix.map frame, ?_⟩
  intro hidle hinbound htransit
  have hawaited := awaited_of_holds hf.tracks.packet
  rw [if_pos hidle] at hawaited
  rw [hordered.taken_eq hawaited.symm (hf.tracks.inbound.symm.trans hinbound)
    (hf.transit.trans htransit)]

/-- **Segments.** In every run, orderly or not, the payloads that a side has obtained are segments
of the bytes that were accepted from its peer, one behind the other. -/
theorem obtained_excerpts (hc : c.Fresh) (h : Reaches Connection.Step c labels c') (s : Side) :
    ∃ consumed, Excerpt ((c'.obtained s).map payload) consumed ∧
      c'.stream s.peer = consumed ++ ((c'.endpoint s).inbound ++ c'.transit s.peer) := by
  obtain ⟨events, f, hrun, hf⟩ := flow_of_reaches hc h s
  obtain ⟨htaken, hstream⟩ := Flow.excerpted_of_reaches hrun
  rename_i consumed
  rw [hf.tracks.taken] at htaken
  rw [hf.stream, hf.transit, ← hf.tracks.inbound] at hstream
  exact ⟨consumed, htaken, hstream⟩

end Runs

/-! ## An exchange -/

/-- Two sockets that have just been connected, and new packets. -/
def opened : Connection where
  endpoint _ := { socket := { protocol := .tcp }, packet := Packet.fresh }
  transit _ := []
  stream _ := []
  sent _ := []
  torn _ := false
  obtained _ := []

/-- A packet of one byte. -/
def single : Packet := { Packet.fresh with data := [1, 0, 7], writePos := 3 }

/-- The client's send has to wait inside the packet, which arrives in two portions.  So does the
server, and in between the client receives in vain. -/
def exchange : List (Side × Action) :=
  [(.client, .send single [.count 2, .failure .wouldBlock, .count 1]),
    (.client, .arrive 2),
    (.server, .receive [.count 2]),
    (.client, .receive [.failure .wouldBlock]),
    (.client, .arrive 1),
    (.server, .receive [.count 1])]

def Connection.afterAll (c : Connection) (labels : List (Side × Action)) : Connection :=
  labels.foldl (fun c label => c.after label.1 label.2) c

section Exchange

theorem used_fresh : Used (.live Packet.fresh) :=
  .init ⟨Packet.fresh, Packet.constructed_iff.mpr rfl, rfl⟩

theorem used_single : Used (.live single) :=
  used_fresh.step (i := .operation (.writeData [7] true)) (by simp [Packet.Call.operands])
    (Packet.Slot.Use.call (by simp) (.inl rfl))

theorem fresh_opened : opened.Fresh where
  protocol _ := rfl
  packet _ := used_fresh
  idle _ := by
    show Idle Packet.fresh
    exact ⟨by decide, by decide⟩
  inbound _ := rfl
  transit _ := rfl
  stream _ := rfl
  sent _ := rfl
  torn _ := rfl
  obtained _ := rfl

theorem reaches_exchange : Reaches OrderlyStep opened exchange (opened.afterAll exchange) := by
  unfold exchange
  refine .cons ⟨.send _ used_single, rfl⟩ ?_
  refine .cons ⟨.arrive 2, trivial⟩ ?_
  refine .cons ⟨.receive rfl, ⟨rfl, trivial⟩⟩ ?_
  refine .cons ⟨.receive rfl, trivial⟩ ?_
  refine .cons ⟨.arrive 1, trivial⟩ ?_
  refine .cons ⟨.receive rfl, ⟨rfl, trivial⟩⟩ ?_
  exact .nil _

theorem obtained_inOrder_exchange :
    let c := opened.afterAll exchange
    (c.obtained .server).map (·.data) <+: [[1, 0, 7]] ∧
      ((c.endpoint .server).packet.recvTarget < 0 → (c.endpoint .server).inbound = [] →
        c.transit .client = [] → (c.obtained .server).map (·.data) = [[1, 0, 7]]) :=
  obtained_inOrder fresh_opened reaches_exchange .server

theorem obtained_excerpts_exchange :
    ∃ consumed, Excerpt [[7]] consumed ∧ ([1, 0, 7] : List UInt8) = consumed ++ ([] ++ []) :=
  obtained_excerpts fresh_opened (reaches_exchange.mono fun _ _ _ h => h.1) .server

end Exchange

/-! ## Typed messages -/

section Messages

variable {c c' : Connection} {s : Side} {labels : List (Side × Action)} {p q : Packet}
  {vs : List Value}

/-- Values written into a packet that has been cleared are its payload. -/
theorem payload_of_inserted (hsize : (encodeAll vs).length ≤ 65533) {old : Packet}
    (hp : (do Packet.clear; insertAll vs : PacketM Unit).run old = .ok () p) :
    payload p = encodeAll vs := by
  have hcleared := Packet.cleared_valid old
  have hlen : old.cleared.data.length = 2 := rfl
  have hpos : old.cleared.writePos = 2 := rfl
  have hinsert := Packet.insertAll_run vs hcleared (by rw [hlen]; decide)
    (by rw [hpos]; simp only [datagramSize]; omega)
  rw [EStateM.run_bind, Packet.clear_run] at hp
  rw [show (insertAll vs).run old.cleared = .ok () p from hp] at hinsert
  cases hinsert
  -- a packet that was cleared has no payload to overwrite
  rw [payload, Packet.drop_written _ hcleared.writePos]
  show splice [] 0 (encodeAll vs) = encodeAll vs
  rw [splice_zero, List.drop_nil, List.append_nil]

/-- A packet is read from its start to its end. -/
theorem extractAll_of_payload (hread : q.readPos = 2) (hq : q.Consistent)
    (hpayload : payload q = encodeAll vs) :
    ∃ q', (extractAll (vs.map Sigma.fst)).run q = .ok vs q' ∧ q'.atEnd = true := by
  have hlen := hq.length
  have hrest := congrArg List.length hpayload
  rw [payload, List.length_drop] at hrest
  refine ⟨_, Packet.extractAll_of_prefixed vs (by rw [hread]; omega) (by omega) ?_, ?_⟩
  · rw [hread]
    exact ⟨[], (List.append_nil _).trans hpayload.symm⟩
  · show (toSize (q.readPos + (encodeAll vs).length) == q.data.length) = true
    rw [hread, toSize_of_nonneg (by omega) (by omega), beq_iff_eq]
    omega

/-- **Messages.** In every orderly run the packet that a side obtains in some place holds the
values that its peer wrote into the packet it has sent in that place, and no more. -/
theorem obtained_values (hc : c.Fresh) (h : Reaches OrderlyStep c labels c') (s : Side) {i : ℕ}
    (hq : (c'.obtained s)[i]? = some q) :
    ∃ p, (c'.sent s.peer)[i]? = some p ∧ ∀ vs : List Value, ∀ old : Packet,
      (encodeAll vs).length ≤ 65533 →
      (do Packet.clear; insertAll vs : PacketM Unit).run old = .ok () p →
        ∃ q', (extractAll (vs.map Sigma.fst)).run q = .ok vs q' ∧ q'.atEnd = true := by
  obtain ⟨events, f, hrun, hkept, hf⟩ := flow_of_orderly hc h s
  obtain ⟨-, hordered⟩ := Flow.ordered_of_reaches hrun
  have hfirst := hordered.taken_prefix
  rw [hf.tracks.taken, hf.sent] at hfirst
  -- the payload in this place is the one that was sent in it
  have hplace : ((c'.obtained s).map payload)[i]? = some (payload q) := by
    rw [List.getElem?_map, hq]
    rfl
  obtain ⟨hi, hpayload⟩ := List.getElem?_eq_some_iff.mp hplace
  have hsent := List.prefix_iff_getElem?.mp hfirst i hi
  rw [hpayload, List.getElem?_map, Option.map_eq_some_iff] at hsent
  obtain ⟨p, hp, hpayload⟩ := hsent
  refine ⟨p, hp, fun vs old hsize hinserted => ?_⟩
  obtain ⟨hread, hconsistent⟩ := hkept.obtained s q (List.mem_of_getElem? hq)
  apply extractAll_of_payload hread hconsistent
  rw [← hpayload, payload_of_inserted hsize hinserted]

/-- The byte of the exchange. -/
theorem obtained_values_exchange :
    ∃ q', (extractAll [.uint8]).run { single with writePos := 2 } =
      .ok [⟨.uint8, (7 : UInt8)⟩] q' ∧ q'.atEnd = true := by
  obtain ⟨p, hp, hvalues⟩ := obtained_values fresh_opened reaches_exchange .server (i := 0)
    (q := { single with writePos := 2 }) rfl
  have hsingle : ((opened.afterAll exchange).sent .client)[0]? = some single := rfl
  rw [show Side.server.peer = .client from rfl, hsingle, Option.some.injEq] at hp
  subst hp
  exact hvalues [⟨.uint8, (7 : UInt8)⟩] Packet.fresh (by decide) rfl

end Messages

end Sws.Socket
