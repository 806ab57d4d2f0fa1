import Sws.Packet.Resizing
import Sws.Packet.Sound

/-!
# The Status of a Receive

`Socket::receive` on a stream derives its state from the thread's last error alone.  Whether a
frame is complete is decided elsewhere, by the size that was announced and the bytes that
arrived, and a native receive that gives nothing, or a part, sets no error.

A packet does not tell which bytes of a payload earlier calls have taken, so these are stated
beside it.

## Key Results

- `payload_received`: what the buffer holds behind a native receive.
- `receive_truthful_iff`: for which native results the status says what was received.
-/

namespace Sws.Socket

open Sws.Foundation

/-! ## Complete frames -/

/-- The bytes that a call took from the stream. -/
def taken (h h' : Host) : List UInt8 :=
  h.net.inbound.take (h.net.inbound.length - h'.net.inbound.length)

/-- A call that took `new` has taken the last of `t` bytes of a payload, of which earlier calls
took `old`, and all of them are held. -/
def Whole (t : ℕ) (old new held : List UInt8) : Prop :=
  old.length < t ∧ t ≤ old.length + new.length ∧ held = (old ++ new).take t

/-- The call that leads from `h` to `h'` completes a frame: it takes the header as a whole, if
no size is announced, and then the rest of the payload, if there is any.  Earlier calls took
`old` of the payload that the packet awaits. -/
def Completes (old : List UInt8) (h h' : Host) : Prop :=
  if 0 ≤ h.packet.recvTarget then
    Whole h.packet.recvTarget.toNat old (taken h h') (h'.packet.data.drop 2)
  else
    2 ≤ (taken h h').length ∧ (ofBytes ((taken h h').take 2) = 0 ∨
      Whole (ofBytes ((taken h h').take 2)) [] ((taken h h').drop 2) (h'.packet.data.drop 2))

/-! ## Truthful results -/

/-- A failure is not reported as `done`, as `WSAEISCONN` is. -/
def Reported (e : SocketError) : Prop := toState e ≠ .done

/-- What the payload is when `bytes` are put at the front of a buffer sized for `t` of them. -/
def refilled (p : Packet) (t : ℕ) (bytes : List UInt8) : List UInt8 :=
  bytes ++ ((p.data.drop 2).takeD t 0).drop bytes.length

/-- The native results for which the status of a call that awaits a payload tells what happened:
it gives the rest of the payload, and the buffer, which is filled from its start, then holds the
payload; or it fails. -/
def BodyTells (t : ℕ) (old : List UInt8) (p : Packet) (inbound : List UInt8) :
    List NativeResult → Prop
  | .count m :: _ => Whole t old (inbound.take m) (refilled p t (inbound.take m))
  | .failure e :: _ => Reported e
  | [] => False

/-- The same for a call that reads the header first, and then a payload in one piece. -/
def HeaderTells (inbound : List UInt8) : List NativeResult → Prop
  | .count n :: rest => n = 2 ∧ (ofBytes (inbound.take 2) = 0 ∨
    match rest with
    | .count m :: _ => m = ofBytes (inbound.take 2)
    | .failure e :: _ => Reported e
    | [] => False)
  | .failure e :: _ => Reported e
  | [] => False

/-- The states before a call whose status tells what happened. -/
def Tells (old : List UInt8) (h : Host) : Prop :=
  if 0 ≤ h.packet.recvTarget then
    BodyTells h.packet.recvTarget.toNat old h.packet h.net.inbound h.net.results
  else HeaderTells h.net.inbound h.net.results

section Payload

variable {p : Packet} {t : ℕ}

theorem drop_takeD_two (t : ℕ) (bytes : List UInt8) :
    (bytes.takeD (t + 2) 0).drop 2 = (bytes.drop 2).takeD t 0 := by
  match bytes with
  | [] => simp [List.takeD_nil]
  | [b] => simp [List.takeD_succ, List.takeD_nil]
  | b :: b' :: rest => simp [List.takeD_succ]

theorem payload_framed (hfits : Fits p t) :
    (framed p t).data.drop 2 = (p.data.drop 2).takeD t 0 := by
  have hclamp : Packet.clampSize (t + 2) = t + 2 :=
    Packet.clampSize_of_mem ⟨Nat.le_add_left .., Nat.le_of_lt hfits.1⟩
  show (Packet.stamped { p with data := p.data.takeD (Packet.clampSize (t + 2)) 0 }).data.drop 2 = _
  rw [Packet.drop_stamped, hclamp, drop_takeD_two]

/-- **The payload** after a native receive: what arrived, and behind it what was there. -/
theorem payload_received (hfits : Fits p t) (bytes : List UInt8) :
    (received p t bytes).data.drop 2 = refilled p t bytes := by
  have hlen := length_framed hfits
  show (splice (framed p t).data 2 bytes).drop 2 = _
  rw [← Nat.add_zero 2, drop_splice _ _ (by omega), splice_zero, Nat.add_zero,
    payload_framed hfits, refilled]

/-- A payload in one piece is all that the buffer holds. -/
theorem whole_refilled_iff (p : Packet) {bytes : List UInt8} (hlen : bytes.length ≤ t)
    (hpos : 0 < t) : Whole t [] bytes (refilled p t bytes) ↔ bytes.length = t := by
  constructor
  · rintro ⟨-, hall, -⟩
    simp only [List.length_nil, Nat.zero_add] at hall
    omega
  · intro hall
    refine ⟨hpos, by simp [hall], ?_⟩
    have hbehind : ((p.data.drop 2).takeD t 0).drop bytes.length = [] := by
      apply List.drop_of_length_le
      rw [List.takeD_length, hall]
    rw [refilled, hbehind, List.append_nil, List.nil_append, List.take_of_length_le hall.le]

/-- What has taken nothing completes nothing. -/
theorem not_whole_nil {old held : List UInt8} : ¬Whole t old [] held := by
  rintro ⟨hless, hall, -⟩
  simp only [List.length_nil] at hall
  omega

end Payload

section Truthful

variable {h h' : Host} {t : ℕ} {state : SocketState} {rest : List NativeResult}

/-- The second half of a call, which takes what arrives and reports the last error. -/
theorem receiveBody_returns (ht : h.packet.recvTarget = t) (hlt : 0 < t ∧ t ≤ 65535)
    (hp : h.packet.InLimits) (hnone : h.net.lastError = .none)
    (hrun : receiveBody.run h = .ok state h') :
    (∃ m rest, h.net.results = .count m :: rest ∧ m ≤ min t h.net.inbound.length ∧
      state = .done ∧ h'.net.inbound = h.net.inbound.drop m ∧
      h'.packet.data.drop 2 = refilled h.packet t (h.net.inbound.take m)) ∨
    (∃ e rest, h.net.results = .failure e :: rest ∧ state = toState e ∧
      h'.net.inbound = h.net.inbound) := by
  -- a call that returns is one whose payload fits
  have hfits : Fits h.packet t := by
    by_contra hout
    obtain ⟨e, q, hthrows, -⟩ := receiveBody_throws ht hlt.2 hp hout
    rw [hthrows] at hrun
    cases hrun
  rcases answers_cases (min t h.net.inbound.length) h.net.results with
    ⟨m, rest, hres, hm⟩ | ⟨e, rest, hres, he⟩ | hpending
  · rw [receiveBody_count ht hfits hres hm] at hrun
    cases hrun
    exact .inl ⟨m, rest, hres, hm, congrArg toState hnone, rfl, payload_received hfits _⟩
  · rw [receiveBody_failure ht hfits hlt.1 hres he] at hrun
    cases hrun
    exact .inr ⟨e, rest, hres, rfl, rfl⟩
  · rw [receiveBody_pending ht hfits hpending] at hrun
    cases hrun

/-- What is missing from the stream has been taken. -/
theorem taken_eq {n : ℕ} (hinbound : h'.net.inbound = h.net.inbound.drop n)
    (hn : n ≤ h.net.inbound.length) : taken h h' = h.net.inbound.take n := by
  have htaken : h.net.inbound.length - (h.net.inbound.length - n) = n := by omega
  rw [taken, hinbound, List.length_drop, htaken]

theorem taken_eq_nil (hinbound : h'.net.inbound = h.net.inbound) : taken h h' = [] := by
  rw [taken, hinbound, Nat.sub_self, List.take_zero]

/-- The host after a header that announces a size above 0. -/
def headerTaken (h : Host) (rest : List NativeResult) : Host :=
  { h with
    packet := { h.packet.cleared with recvTarget := ofBytes (h.net.inbound.take 2) }
    net := { h.net with results := rest, inbound := h.net.inbound.drop 2 } }

/-- An announced size reaches the second half of the call. -/
theorem receive_announcing (htcp : h.socket.protocol ≠ .udp) (hidle : Idle h.packet)
    (hres : h.net.results = .count 2 :: rest) (hlen : 2 ≤ h.net.inbound.length)
    (hsize : 0 < ofBytes (h.net.inbound.take 2)) :
    receive.run h = receiveBody.run (headerTaken h rest) := by
  have hheader := receiveHeader_count hidle hres (Nat.le_min.mpr ⟨Nat.le_refl 2, hlen⟩)
  have htwo : (h.net.inbound.take 2).length = 2 := List.length_take_of_le hlen
  rw [afterHeader, announced, if_pos ⟨htwo, hsize⟩] at hheader
  refine receive_announced htcp hheader ?_
  show (0 : Int) < ofBytes (h.net.inbound.take 2)
  omega

/-- A size that two bytes hold. -/
theorem ofBytes_take_two_le (bytes : List UInt8) : ofBytes (bytes.take 2) ≤ 65535 := by
  have hbound := ofBytes_lt (bytes.take 2)
  have hlen : (bytes.take 2).length ≤ 2 := List.length_take_le 2 bytes
  have hpow : 256 ^ (bytes.take 2).length ≤ 256 ^ 2 := Nat.pow_le_pow_right (by decide) hlen
  omega

/-- A call that awaits a payload. -/
theorem resuming_truthful_iff (htcp : h.socket.protocol ≠ .udp) (ht : h.packet.recvTarget = t)
    (hlt : 0 < t ∧ t ≤ 65535) (hp : h.packet.InLimits) (hnone : h.net.lastError = .none)
    (old : List UInt8) (hrun : receive.run h = .ok state h') :
    (state = .done ↔ Completes old h h') ↔ Tells old h := by
  have htarget : 0 ≤ h.packet.recvTarget := by omega
  have htoNat : h.packet.recvTarget.toNat = t := by omega
  rw [receive_resuming htcp (by omega)] at hrun
  rw [Completes, Tells, if_pos htarget, if_pos htarget, htoNat]
  rcases receiveBody_returns ht hlt hp hnone hrun with
    ⟨m, rest, hres, hm, hstate, hinbound, hheld⟩ | ⟨e, rest, hres, hstate, hinbound⟩
  · rw [hres, taken_eq hinbound (by omega), hheld, hstate]
    simp [BodyTells]
  · rw [hres, taken_eq_nil hinbound, hstate, iff_false_right not_whole_nil]
    exact Iff.rfl

/-- A call that is told the size of a payload and goes on to read it. -/
theorem announced_truthful_iff (hidle : Idle h.packet) (hnone : h.net.lastError = .none)
    (hres : h.net.results = .count 2 :: rest) (hlen : 2 ≤ h.net.inbound.length)
    (hsize : 0 < ofBytes (h.net.inbound.take 2))
    (hrun : receiveBody.run (headerTaken h rest) = .ok state h') (old : List UInt8) :
    (state = .done ↔ Completes old h h') ↔ Tells old h := by
  have htarget : ¬0 ≤ h.packet.recvTarget := not_le.mpr hidle.2
  have hzero : ¬ofBytes (h.net.inbound.take 2) = 0 := Nat.ne_of_gt hsize
  have hreturns := receiveBody_returns (h := headerTaken h rest) rfl
    ⟨hsize, ofBytes_take_two_le _⟩ (Packet.inLimits_cleared h.packet) hnone hrun
  rw [Completes, Tells, if_neg htarget, if_neg htarget, hres]
  rcases hreturns with
    ⟨m, rest', hrest, hm, hstate, hinbound, hheld⟩ | ⟨e, rest', hrest, hstate, hinbound⟩
  · -- the header and the payload are taken one behind the other
    have hrest' : rest = .count m :: rest' := hrest
    have hm' : m ≤ min (ofBytes (h.net.inbound.take 2)) (h.net.inbound.drop 2).length := hm
    have hboth : 2 + m ≤ h.net.inbound.length := by
      rw [List.length_drop] at hm'
      omega
    have hinbound' : h'.net.inbound = h.net.inbound.drop (2 + m) := by
      rw [hinbound]
      exact List.drop_drop ..
    have hfirst : (h.net.inbound.take (2 + m)).take 2 = h.net.inbound.take 2 := by
      rw [List.take_take, Nat.min_eq_left (Nat.le_add_right 2 m)]
    have hsecond : (h.net.inbound.take (2 + m)).drop 2 = (h.net.inbound.drop 2).take m := by
      rw [List.drop_take, Nat.add_sub_cancel_left]
    have hpayload : ((h.net.inbound.drop 2).take m).length = m := by
      rw [List.length_take]
      omega
    have hlong : 2 ≤ (h.net.inbound.take (2 + m)).length := by
      rw [List.length_take]
      omega
    have hwhole : Whole (ofBytes (h.net.inbound.take 2)) [] ((h.net.inbound.drop 2).take m)
        (h'.packet.data.drop 2) ↔ m = ofBytes (h.net.inbound.take 2) := by
      have hiff := whole_refilled_iff (headerTaken h rest).packet (hpayload.trans_le
        (hm'.trans (Nat.min_le_left ..))) hsize
      rw [hpayload] at hiff
      rw [hheld]
      exact hiff
    rw [taken_eq hinbound' hboth, hfirst, hsecond, hwhole, hrest', hstate, and_iff_right hlong]
    simp [HeaderTells, hzero]
  · have hrest' : rest = .failure e :: rest' := hrest
    have htwo : (h.net.inbound.take 2).length = 2 := List.length_take_of_le hlen
    have hnothing : (h.net.inbound.take 2).drop 2 = [] := List.drop_of_length_le htwo.le
    have htake : (h.net.inbound.take 2).take 2 = h.net.inbound.take 2 := by
      rw [List.take_take, Nat.min_self]
    rw [taken_eq hinbound hlen, hnothing, htake, hrest', hstate]
    simp [HeaderTells, Reported, hzero, not_whole_nil]

theorem getErrorState_ok {g : Host} (hrun : getErrorState.run g = .ok state h') :
    state = toState g.net.lastError ∧ h'.net = g.net := by
  rw [getErrorState_run] at hrun
  cases hrun
  exact ⟨rfl, rfl⟩

/-- A call that reads a header first. -/
theorem idle_truthful_iff (htcp : h.socket.protocol ≠ .udp) (hidle : Idle h.packet)
    (hnone : h.net.lastError = .none) (old : List UInt8)
    (hrun : receive.run h = .ok state h') :
    (state = .done ↔ Completes old h h') ↔ Tells old h := by
  have htarget : ¬0 ≤ h.packet.recvTarget := not_le.mpr hidle.2
  rcases answers_cases (min 2 h.net.inbound.length) h.net.results with
    ⟨n, rest, hres, hn⟩ | ⟨e, rest, hres, he⟩ | hpending
  · have hheader := receiveHeader_count hidle hres hn
    have hlen : (h.net.inbound.take n).length = n := by
      rw [List.length_take]
      omega
    by_cases hsize : n = 2 ∧ 0 < ofBytes (h.net.inbound.take n)
    · obtain ⟨rfl, hsize⟩ := hsize
      have htwo : 2 ≤ h.net.inbound.length := hn.trans (Nat.min_le_right ..)
      rw [receive_announcing htcp hidle hres htwo hsize] at hrun
      exact announced_truthful_iff hidle hnone hres htwo hsize hrun old
    · -- no size was announced, and what was taken is not looked at again
      have hdropped : announced h.packet (h.net.inbound.take n) = h.packet.cleared := by
        rw [announced, hlen, if_neg hsize]
      rw [afterHeader, hdropped] at hheader
      rw [receive_unannounced htcp hheader (Int.le_of_lt hidle.2)] at hrun
      obtain ⟨hstate, hnet⟩ := getErrorState_ok hrun
      have htaken : taken h h' = h.net.inbound.take n :=
        taken_eq (by rw [hnet]) (by omega)
      have hnothing : (h.net.inbound.take n).drop 2 = [] := List.drop_of_length_le (by omega)
      have hdone : state = .done := hstate.trans (congrArg toState hnone)
      rw [Completes, Tells, if_neg htarget, if_neg htarget, hres, htaken, hnothing, hlen, hdone]
      rcases Nat.lt_or_eq_of_le (hn.trans (Nat.min_le_left ..)) with hpart | rfl
      · -- a header in parts
        simp [HeaderTells, hpart.ne, not_le.mpr hpart]
      · -- an empty payload
        have hzero : ofBytes (h.net.inbound.take 2) = 0 := by omega
        simp [HeaderTells, List.take_take, hzero]
  · have hreturns := receive_unannounced htcp (receiveHeader_failure hidle hres he)
      (Int.le_of_lt hidle.2)
    rw [hreturns] at hrun
    obtain ⟨hstate, hnet⟩ := getErrorState_ok hrun
    have htaken : taken h h' = [] := taken_eq_nil (by rw [hnet])
    rw [Completes, Tells, if_neg htarget, if_neg htarget, hres, htaken, hstate]
    simp [HeaderTells, Reported]
  · rw [receive_of_error htcp (receiveHeader_pending hidle hpending)] at hrun
    cases hrun

/-- **Truthful receives.** When no error was pending before the call, exactly in these states a
call that returns reports `done` if and only if it completes a frame. -/
theorem receive_truthful_iff (htcp : h.socket.protocol = .tcp) (hp : Packet.Reachable h.packet)
    (hnone : h.net.lastError = .none) (old : List UInt8) (hrun : receive.run h = .ok state h') :
    (state = .done ↔ Completes old h h') ↔ Tells old h := by
  have hsound := Packet.reachable_sound hp
  have hstream := ne_udp_of_tcp htcp
  rcases hsound.idle_or_awaiting with hidle | ⟨t, ht, hlt⟩
  · exact idle_truthful_iff hstream hidle hnone old hrun
  · exact resuming_truthful_iff hstream ht hlt hsound.inLimits hnone old hrun

end Truthful

/-- A socket that receives into a new packet. -/
def receivingInto (inbound : List UInt8) (results : List NativeResult) : Host where
  socket := { handle := some 1, protocol := .tcp }
  packet := Packet.fresh
  net := { results, inbound }

/-- A frame of one byte comes whole. -/
theorem receive_truthful_iff_whole :
    (SocketState.done = .done ↔ Completes [] (receivingInto [1, 0, 7] [.count 2, .count 1])
      (finalState (receive.run (receivingInto [1, 0, 7] [.count 2, .count 1])))) ↔
    Tells [] (receivingInto [1, 0, 7] [.count 2, .count 1]) :=
  receive_truthful_iff rfl Packet.reachable_fresh rfl [] rfl

/-- The peer has closed the connection, and the call reports `done`. -/
theorem not_receive_truthful :
    ∃ h h' : Host, h.socket.protocol = .tcp ∧ Packet.Reachable h.packet ∧
      h.net.lastError = .none ∧ h.net.results = [.count 0] ∧
      receive.run h = .ok .done h' ∧ ¬Completes [] h h' := by
  refine ⟨receivingInto [] [.count 0], _, rfl, Packet.reachable_fresh, rfl, rfl, rfl, ?_⟩
  rintro ⟨hheader, -⟩
  revert hheader
  decide

end Sws.Socket
