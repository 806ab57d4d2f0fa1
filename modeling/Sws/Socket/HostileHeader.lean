import Sws.Socket.ReceiveStatus

/-!
# What a Hostile Header Leaves Behind

`Socket::receive` stores the announced size before it sizes the buffer for it.  A size that the
buffer cannot take makes the resize throw, and what has been stored stays: the next call goes
on with the same size, throws again, and does not even look at the stream.

## Key Results

- `receive_throws_iff`: which calls throw.
- `survives_iff`: no packet is as it should be after a call that has thrown.
- `wedged_forever`: after an announced size of 65534 or 65535 every later call throws.
-/

namespace Sws.Socket

open Sws.Foundation

/-! ## Packets to go on with -/

/-- No receive is in progress, the packet is valid, and a call on a stream does with it what it
does with a new one. -/
structure Usable (p : Packet) : Prop where
  recvTarget : p.recvTarget = -1
  recvPos : p.recvPos = -1
  valid : p.Valid
  asFresh : ∀ socket net, socket.protocol ≠ .udp →
    receive.run ⟨socket, p, net⟩ = receive.run ⟨socket, Packet.fresh, net⟩

/-- A call on a stream clears an idle packet before it does anything else. -/
theorem receive_congr_cleared {p q : Packet} {socket : Socket} (net : Net)
    (htcp : socket.protocol ≠ .udp) (hp : Idle p) (hq : Idle q) (hcleared : p.cleared = q.cleared) :
    receive.run ⟨socket, p, net⟩ = receive.run ⟨socket, q, net⟩ := by
  have hheader : receiveHeader.run ⟨socket, p, net⟩ = receiveHeader.run ⟨socket, q, net⟩ := by
    rw [receiveHeader_idle hp, receiveHeader_idle hq]
    simp only [hcleared]
  simp only [receive, EStateM.run_bind, EStateM.run_get, if_neg htcp, hheader]

/-- A valid packet without transfers under way is one to go on with. -/
theorem usable_of_idle {p : Packet} (htarget : p.recvTarget = -1) (hpos : p.recvPos = -1)
    (hsend : p.sendPos = -1) (hp : p.Valid) : Usable p where
  recvTarget := htarget
  recvPos := hpos
  valid := hp
  asFresh socket net htcp := by
    have hidle : Idle p := ⟨by omega, by omega⟩
    have hfresh : Idle Packet.fresh := ⟨by decide, by decide⟩
    refine receive_congr_cleared net htcp hidle hfresh ?_
    rw [Packet.cleared, hsend, hpos, htarget]
    rfl

/-- If the call throws, the packet can be used for the next one. -/
def Survives (h : Host) : Prop :=
  ∀ e h', receive.run h = .error (.thrown e) h' → Usable h'.packet

/-! ## Calls that throw -/

/-- The header comes, and announces more than the buffer takes. -/
def AnnouncesOverlong (inbound : List UInt8) : List NativeResult → Prop
  | .count n :: _ => n = 2 ∧ 2 ≤ inbound.length ∧ datagramSize ≤ ofBytes (inbound.take 2) + 2
  | _ => False

/-- The call awaits a payload that the buffer does not take, or will be told of one. -/
def Overlong (h : Host) : Prop :=
  if 0 ≤ h.packet.recvTarget then ¬Fits h.packet h.packet.recvTarget.toNat
  else AnnouncesOverlong h.net.inbound h.net.results

section Throws

variable {h : Host} {t : ℕ} {rest : List NativeResult}

/-- A payload that the buffer does not take stays announced. -/
theorem receiveBody_misfit (ht : h.packet.recvTarget = t) (hlt : t ≤ 65535)
    (hp : h.packet.InLimits) (hfits : ¬Fits h.packet t) :
    ∃ e q, receiveBody.run h = .error (.thrown e) { h with packet := q } ∧
      q.recvTarget = t ∧ q.InLimits := by
  obtain ⟨e, q, hrun, hcaught, hq⟩ := receiveBody_throws ht hlt hp hfits
  have hlimits : q.InLimits := ⟨hq.length_eq ▸ (Packet.clampSize_mem _).2, hq.writePos⟩
  cases e with
  | thrown e => exact ⟨e, q, hrun, hq.recvTarget.trans ht, hlimits⟩
  | undefined u => exact hcaught.elim
  | pending => exact hcaught.elim

/-- One that it takes is received, or waited for. -/
theorem receiveBody_fits (ht : h.packet.recvTarget = t) (hpos : 0 < t) (hfits : Fits h.packet t)
    (e : Exception) (h' : Host) : receiveBody.run h ≠ .error (.thrown e) h' := by
  rcases answers_cases (min t h.net.inbound.length) h.net.results with
    ⟨n, rest, hres, hn⟩ | ⟨e', rest, hres, he⟩ | hpending
  · rw [receiveBody_count ht hfits hres hn, getErrorState_run]
    intro hthrows
    cases hthrows
  · rw [receiveBody_failure ht hfits hpos hres he, getErrorState_run]
    intro hthrows
    cases hthrows
  · rw [receiveBody_pending ht hfits hpending]
    intro hthrows
    cases hthrows

/-- A cleared packet takes every payload that there is room for. -/
theorem fits_headerTaken_iff (h : Host) (rest : List NativeResult) (t : ℕ) :
    Fits (headerTaken h rest).packet t ↔ t + 2 < datagramSize := by
  refine and_iff_left ?_
  show (2 : Int) ≤ 2 ∧ (2 : Int) ≤ (t : Int) + 2
  omega

/-- A header that announces too much. -/
theorem receive_overlong_header (htcp : h.socket.protocol ≠ .udp) (hidle : Idle h.packet)
    (hres : h.net.results = .count 2 :: rest) (hlen : 2 ≤ h.net.inbound.length)
    (hlarge : datagramSize ≤ ofBytes (h.net.inbound.take 2) + 2) :
    ∃ e h', receive.run h = .error (.thrown e) h' ∧
      h'.packet.recvTarget = (ofBytes (h.net.inbound.take 2) : ℕ) ∧ h'.packet.InLimits := by
  have hsize : 0 < ofBytes (h.net.inbound.take 2) := by
    simp only [datagramSize] at hlarge
    omega
  have hmisfit := mt (fits_headerTaken_iff h rest _).mp (not_lt.mpr hlarge)
  obtain ⟨e, q, hrun, hq⟩ := receiveBody_misfit (h := headerTaken h rest) rfl
    (ofBytes_take_two_le _) (Packet.inLimits_cleared h.packet) hmisfit
  rw [receive_announcing htcp hidle hres hlen hsize]
  exact ⟨e, _, hrun, hq⟩

/-- A call that is told of no payload, or of one that there is room for. -/
theorem receive_idle_returns (htcp : h.socket.protocol ≠ .udp) (hidle : Idle h.packet)
    (hover : ¬AnnouncesOverlong h.net.inbound h.net.results) (e : Exception) (h' : Host) :
    receive.run h ≠ .error (.thrown e) h' := by
  rcases answers_cases (min 2 h.net.inbound.length) h.net.results with
    ⟨n, rest, hres, hn⟩ | ⟨e', rest, hres, he⟩ | hpending
  · have hlen : (h.net.inbound.take n).length = n := by
      rw [List.length_take]
      omega
    -- a payload follows only if the whole header has come, and is not 0
    by_cases hsize : n = 2 ∧ 0 < ofBytes (h.net.inbound.take n)
    · obtain ⟨rfl, hsize⟩ := hsize
      have htwo : 2 ≤ h.net.inbound.length := hn.trans (Nat.min_le_right ..)
      have hroom : ofBytes (h.net.inbound.take 2) + 2 < datagramSize := by
        rw [hres] at hover
        exact not_le.mp fun hlarge => hover ⟨rfl, htwo, hlarge⟩
      rw [receive_announcing htcp hidle hres htwo hsize]
      exact receiveBody_fits rfl hsize ((fits_headerTaken_iff h rest _).mpr hroom) e h'
    · have hheader := receiveHeader_count hidle hres hn
      rw [afterHeader, announced, hlen, if_neg hsize] at hheader
      rw [receive_unannounced htcp hheader (Int.le_of_lt hidle.2), getErrorState_run]
      intro hthrows
      cases hthrows
  · rw [receive_unannounced htcp (receiveHeader_failure hidle hres he) (Int.le_of_lt hidle.2),
      getErrorState_run]
    intro hthrows
    cases hthrows
  · rw [receive_of_error htcp (receiveHeader_pending hidle hpending)]
    intro hthrows
    cases hthrows

/-- **Calls that throw**, and the size that they leave announced. -/
theorem receive_throws_iff (htcp : h.socket.protocol ≠ .udp) (hp : Packet.Reachable h.packet) :
    (Overlong h → ∃ e h', receive.run h = .error (.thrown e) h' ∧ 0 ≤ h'.packet.recvTarget) ∧
      (¬Overlong h → ∀ e h', receive.run h ≠ .error (.thrown e) h') := by
  have hsound := Packet.reachable_sound hp
  rcases hsound.idle_or_awaiting with hidle | ⟨t, ht, hpos, hlt⟩
  · have htarget : ¬0 ≤ h.packet.recvTarget := not_le.mpr hidle.2
    rw [Overlong, if_neg htarget]
    refine ⟨fun hover => ?_, receive_idle_returns htcp hidle⟩
    match hres : h.net.results, hover with
    | .count n :: rest, ⟨htwo, hlen, hlarge⟩ =>
      rw [htwo] at hres
      obtain ⟨e, h', hrun, ht, -⟩ := receive_overlong_header htcp hidle hres hlen hlarge
      exact ⟨e, h', hrun, by omega⟩
  · have htoNat : h.packet.recvTarget.toNat = t := by omega
    rw [Overlong, if_pos (by omega), htoNat, receive_resuming htcp (by omega)]
    constructor
    · intro hmisfit
      obtain ⟨e, q, hrun, hq, -⟩ := receiveBody_misfit ht hlt hsound.inLimits hmisfit
      exact ⟨e, _, hrun, show 0 ≤ q.recvTarget by omega⟩
    · exact fun hfits => receiveBody_fits ht hpos (not_not.mp hfits)

/-- **Surviving.** Exactly where no payload is announced that the buffer does not take, a call
that throws leaves the packet ready for the next one: it does not throw there. -/
theorem survives_iff (htcp : h.socket.protocol = .tcp) (hp : Packet.Reachable h.packet) :
    Survives h ↔ ¬Overlong h := by
  have hends := receive_throws_iff (h := h) (ne_udp_of_tcp htcp) hp
  constructor
  · intro hsurvives hover
    obtain ⟨e, h', hrun, htarget⟩ := hends.1 hover
    have hidle := (hsurvives e h' hrun).recvTarget
    omega
  · exact fun hover e h' hrun => absurd hrun (hends.2 hover e h')

end Throws

/-- A frame of one byte comes whole. -/
theorem survives_iff_whole :
    Survives (receivingInto [1, 0, 7] [.count 2, .count 1]) ↔
      ¬Overlong (receivingInto [1, 0, 7] [.count 2, .count 1]) :=
  survives_iff rfl Packet.reachable_fresh

/-! ## Wedged packets -/

/-- A size is announced that no buffer takes. -/
def Wedged (p : Packet) : Prop :=
  ∃ t : ℕ, p.recvTarget = t ∧ (datagramSize ≤ t + 2 ∧ t ≤ 65535) ∧ p.InLimits

/-- A call on a stream leads from one packet to the other. -/
def Receives (p : Packet) (call : Socket × Net) (p' : Packet) : Prop :=
  call.1.protocol ≠ .udp ∧ p' = (finalState (receive.run ⟨call.1, p, call.2⟩)).packet

section Wedged

variable {h : Host} {p p' : Packet}

/-- A call with a wedged packet throws without a look at the stream. -/
theorem receive_wedged (htcp : h.socket.protocol ≠ .udp) (hp : Wedged h.packet) :
    ∃ e q, receive.run h = .error (.thrown e) { h with packet := q } ∧ Wedged q := by
  obtain ⟨t, ht, ⟨hlarge, hlt⟩, hlimits⟩ := hp
  have hpos : 0 < t := by
    simp only [datagramSize] at hlarge
    omega
  obtain ⟨e, q, hrun, hq, hlimits'⟩ := receiveBody_misfit ht hlt hlimits
    fun hfits => not_lt.mpr hlarge hfits.1
  refine ⟨e, q, ?_, t, hq, ⟨hlarge, hlt⟩, hlimits'⟩
  rw [receive_resuming htcp (by omega), hrun]

/-- **Wedged for ever.** Whatever sockets and streams the later calls are made on, they leave the
packet wedged. -/
theorem wedged_forever {calls : List (Socket × Net)} (hp : Wedged p)
    (hruns : Reaches Receives p calls p') : Wedged p' := by
  refine hruns.invariant ?_ hp
  rintro q ⟨socket, net⟩ q' hq ⟨htcp, rfl⟩
  obtain ⟨e, r, hrun, hr⟩ := receive_wedged (h := ⟨socket, q, net⟩) htcp hq
  rw [hrun]
  exact hr

end Wedged

/-- A peer announces 65535 bytes to a new packet.  The call throws, and no later one does
anything else. -/
theorem not_survives_overlong :
    (∃ e h', receive.run (receivingInto [255, 255] [.count 2]) = .error (.thrown e) h' ∧
      ∀ calls p', Reaches Receives h'.packet calls p' → Wedged p') ∧
    ¬Survives (receivingInto [255, 255] [.count 2]) := by
  obtain ⟨e, h', hrun, htarget, hlimits⟩ := receive_overlong_header
    (h := receivingInto [255, 255] [.count 2]) (by decide) ⟨by decide, by decide⟩ rfl (by decide)
    (by decide)
  have hwedged : Wedged h'.packet := ⟨65535, htarget, by decide, hlimits⟩
  refine ⟨⟨e, h', hrun, fun calls p' => wedged_forever hwedged⟩, fun hsurvives => ?_⟩
  have hidle := (hsurvives e h' hrun).recvTarget
  rw [hidle] at htarget
  revert htarget
  decide

end Sws.Socket
