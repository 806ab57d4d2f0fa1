import Sws.Socket.Send

/-!
# Stale Errors

A send or a receive that reads the thread's last error after a native call that succeeded
reads whatever an earlier call left there.  Two runs of a call that differ in nothing but
that error are compared.

## Key Results

- `send_independent_iff`, `receive_independent_iff`: for which native results the error from
  before the call does not reach what the call reports.
- `staleError_iff`: both, for every protocol and every packet a program can have.
-/

namespace Sws

open Sws.Foundation

def Host.withLastError (e : SocketError) (h : Host) : Host :=
  { h with net := { h.net with lastError := e } }

namespace Socket

/-! ## Two runs of a call -/

/-- What a call reports if it returns: its state and the native error it has stored. -/
def report : EStateM.Result Fault Host SocketState → Option (SocketState × SocketError)
  | .ok state h => some (state, h.socket.nativeError)
  | .error _ _ => none

/-- The report does not depend on the last error from before the call. -/
def StaleFree (m : HostM SocketState) (h : Host) : Prop :=
  Independent Host.withLastError report m h

/-- The next native result is a count. -/
def GivesCount (limit : ℕ) : List NativeResult → Prop
  | .count n :: _ => n ≤ limit
  | _ => False

theorem answers_of_givesCount {limit : ℕ} {results : List NativeResult}
    (h : GivesCount limit results) : Answers limit results := by
  match results, h with
  | .count _ :: _, hn => exact hn

section TwoRuns

variable {m : HostM SocketState} {h : Host}

/-- A call that stores the error from before it tells two of them apart. -/
theorem not_staleFree (hstores : ∀ e, toState e ≠ .inProgress →
    ∃ state, report (m.run (h.withLastError e)) = some (state, e)) : ¬StaleFree m h := by
  obtain ⟨state, hnone⟩ := hstores .none (by decide)
  obtain ⟨state', hreset⟩ := hstores .connectionReset (by decide)
  apply not_independent .none .connectionReset
  rw [hnone, hreset]
  simp

end TwoRuns

/-! ## Sending -/

/-- A send does not read an error that was there before it: there is nothing to send; or its
last native call is no success; or no error is read at all. -/
def SendFresh (h : Host) : Prop :=
  h.packet.empty = true ∨
    if h.socket.protocol = .udp then ¬GivesCount h.packet.data.length h.net.results
    else
      match h.net.results with
      | .count n :: rest =>
        n = 0 ∨ h.packet.data.length ≤ n ∨ ¬GivesCount (h.packet.data.length - n) rest
      | _ => True

section Send

variable {h : Host}

theorem send_udp_independent_iff (hudp : h.socket.protocol = .udp)
    (hfull : h.packet.empty = false) :
    StaleFree send h ↔ ¬GivesCount h.packet.data.length h.net.results := by
  have hrun : ∀ e, send.run (h.withLastError e) = EStateM.run (do
      let _ ← sendRange 0 h.packet.data.length
      getErrorState) (h.withLastError e) := fun e => send_udp hudp hfull
  rcases answers_cases h.packet.data.length h.net.results with
    ⟨n, rest, hres, hn⟩ | ⟨e, rest, hres, he⟩ | hpending
  · -- the error is read after a success
    have hstale : ¬StaleFree send h := by
      apply not_staleFree
      intro e _
      have hsent := sendRange_count (h := h.withLastError e) 0 h.packet.data.length hres
        (by rw [Int.toNat_natCast]; exact hn)
      rw [hrun, EStateM.run_bind, hsent]
      exact ⟨_, rfl⟩
    simp only [hres, GivesCount, hn, not_true, iff_false]
    exact hstale
  · simp only [hres, GivesCount, not_false_eq_true, iff_true]
    apply Independent.of_const (b := some (toState e, e))
    intro e'
    have hsent := sendRange_failure (h := h.withLastError e') 0 h.packet.data.length hres he
    rw [hrun, EStateM.run_bind, hsent]
    rfl
  · refine iff_of_true ?_ fun hcount => hpending (answers_of_givesCount hcount)
    apply Independent.of_const (b := none)
    intro e
    have hsent := sendRange_pending (h := h.withLastError e) 0 h.packet.data.length
      (by rw [Int.toNat_natCast]; exact hpending)
    rw [hrun, EStateM.run_bind, hsent]
    rfl

/-- The loop of a stream reads the error that was there only after a success in its first
round. -/
theorem send_rounds_independent_iff (hs : Sendable h) {n : ℕ} {rest : List NativeResult}
    (hres : h.net.results = .count n :: rest) (hn : 0 < n) (hleft : n < h.packet.data.length) :
    StaleFree send h ↔ ¬GivesCount (h.packet.data.length - n) rest := by
  -- the first native send gives the same in both runs
  have hrun : ∀ e, send.run (h.withLastError e) =
      resetSent ((sendLoop (rest.length + 1) .done).run (begun (h.withLastError e) rest n)) :=
    fun e => send_count (h := h.withLastError e) ⟨hs.stream, hs.nonempty, hs.idle, hs.length_le⟩
      hres hn (Nat.le_of_lt hleft)
  have hbegun : ∀ e, Sending (begun (h.withLastError e) rest n) n :=
    fun _ => ⟨rfl, hn, Nat.le_of_lt hleft, hs.length_le⟩
  rcases answers_cases (h.packet.data.length - n) rest with
    ⟨m, rest', hrest, hm⟩ | ⟨e, rest', hrest, he⟩ | hpending
  · have hstale : ¬StaleFree send h := by
      apply not_staleFree
      intro e hstate
      rw [hrun, sendLoop_count (hbegun e) hleft hrest hm]
      have hlast : (begun (h.withLastError e) rest n).net.lastError = e := rfl
      rw [hlast, continueSend, if_neg hstate]
      exact ⟨_, rfl⟩
    rw [hrest]
    exact iff_of_false hstale (not_not_intro hm)
  · -- from the failure on, the two runs are one
    rw [hrest]
    refine iff_of_true ?_ id
    intro e₁ e₂
    rw [hrun, hrun, sendLoop_failure (hbegun e₁) hleft hrest he,
      sendLoop_failure (hbegun e₂) hleft hrest he]
    rfl
  · refine iff_of_true ?_ fun hcount => hpending (answers_of_givesCount hcount)
    apply Independent.of_const (b := none)
    intro e
    obtain ⟨h', hrange⟩ := sendLoop_pending rest.length .done (hbegun e) hleft hpending
    rw [hrun, hrange]
    rfl

theorem send_stream_independent_iff (hs : Sendable h) :
    StaleFree send h ↔
      match h.net.results with
      | .count n :: rest =>
        n = 0 ∨ h.packet.data.length ≤ n ∨ ¬GivesCount (h.packet.data.length - n) rest
      | _ => True := by
  have hs' : ∀ e, Sendable (h.withLastError e) :=
    fun _ => ⟨hs.stream, hs.nonempty, hs.idle, hs.length_le⟩
  rcases answers_cases h.packet.data.length h.net.results with
    ⟨n, rest, hres, hn⟩ | ⟨e, rest, hres, he⟩ | hpending
  · rw [hres]
    rcases Nat.eq_zero_or_pos n with rfl | hsome
    · -- nothing was accepted, and no error is read
      refine iff_of_true ?_ (.inl rfl)
      apply Independent.of_const (b := some (.done, h.socket.nativeError))
      intro e
      rw [send_nothing (hs' e) hres]
      rfl
    rcases Nat.lt_or_ge n h.packet.data.length with hleft | hall
    · have hzero : ¬n = 0 := Nat.ne_of_gt hsome
      simp only [hzero, not_le.mpr hleft, false_or]
      exact send_rounds_independent_iff hs hres hsome hleft
    · -- everything was accepted, and no error is read
      obtain rfl : n = h.packet.data.length := Nat.le_antisymm hn hall
      refine iff_of_true ?_ (.inr (.inl hall))
      apply Independent.of_const (b := some (.done, h.socket.nativeError))
      intro e
      have hbegun : Sending (begun (h.withLastError e) rest h.packet.data.length)
          h.packet.data.length := (hs' e).begun rest hsome hn
      rw [send_count (hs' e) hres hsome hn, sendLoop_finished hbegun]
      rfl
  · rw [hres]
    refine iff_of_true ?_ trivial
    apply Independent.of_const (b := some (.done, h.socket.nativeError))
    intro e'
    rw [send_failure (hs' e') hres he]
    rfl
  · have hfree : StaleFree send h := by
      apply Independent.of_const (b := none)
      intro e
      obtain ⟨h', hsend⟩ := send_pending (hs' e) hpending
      rw [hsend]
      rfl
    refine iff_of_true hfree ?_
    match hnext : h.net.results with
    | .count n :: rest =>
      rw [hnext] at hpending
      exact .inr (.inl (Nat.le_of_lt (not_le.mp hpending)))
    | .failure _ :: _ | [] => trivial

/-- **Sending.** -/
theorem send_independent_iff (hp : Packet.Reachable h.packet) :
    StaleFree send h ↔ SendFresh h := by
  unfold SendFresh
  cases hempty : h.packet.empty with
  | true =>
    refine iff_of_true ?_ (.inl rfl)
    apply Independent.of_const (b := some (.done, .none))
    intro e
    rw [send_empty (h := h.withLastError e) hempty]
    rfl
  | false =>
    simp only [Bool.false_eq_true, false_or]
    split
    next hudp => exact send_udp_independent_iff hudp hempty
    next hstream => exact send_stream_independent_iff (.of_reachable hstream hempty hp)

end Send

/-! ## Receiving -/

/-- The payload of a frame is received without a look at an error from before the call: the
buffer does not take it, or the native call does not succeed. -/
def BodyFresh (p : Packet) (t : ℕ) (results : List NativeResult) (arriving : ℕ) : Prop :=
  ¬Fits p t ∨ ¬GivesCount (min t arriving) results

/-- A receive does not read an error that was there before it. -/
def ReceiveFresh (h : Host) : Prop :=
  let arriving := h.net.inbound.length
  if h.socket.protocol = .udp then
    -- a datagram of no bytes is reported through the last error
    h.socket.datagram = none ∨ ¬GivesCount 0 h.net.results
  else if h.packet.recvTarget < 0 then
    let size := ofBytes (h.net.inbound.take 2)
    match h.net.results with
    | .count n :: rest =>
      min 2 arriving < n ∨
        (n = 2 ∧ 0 < size ∧
          BodyFresh { h.packet.cleared with recvTarget := size } size rest (arriving - 2))
    | _ => True
  else BodyFresh h.packet h.packet.recvTarget.toNat h.net.results arriving

section Receive

variable {h : Host}

/-- A datagram that is not empty is handled without a look at the last error. -/
theorem staleFree_of_datagram (hudp : h.socket.protocol = .udp) {d : Datagram}
    (hd : h.socket.datagram = some d) {n : ℕ} {rest : List NativeResult}
    (hres : h.net.results = .count n :: rest) (hn : n ≤ min datagramSize h.net.inbound.length)
    (hsome : 0 < n) : StaleFree receive h := by
  have hrun : ∀ e, receive.run (h.withLastError e) =
      (receiveDatagramPacket n).run (afterDatagram (h.withLastError e) d rest n) := by
    intro e
    have hcount := receiveDatagram_count (h := h.withLastError e) hd hres hn
    rw [receive_udp (h := h.withLastError e) hudp, EStateM.run_bind, hcount]
  rcases Classical.em (Announces (d.receive (h.net.inbound.take n)).bytes n) with hgood | hbad
  · apply Independent.of_const (b := some (.done, .none))
    intro e
    have haccepted := receiveDatagramPacket_accepted
      (h := afterDatagram (h.withLastError e) d rest n) rfl hgood
      (Nat.le_trans hn (Nat.min_le_left _ _))
    rw [hrun, haccepted]
    rfl
  · -- what is no packet throws
    apply Independent.of_const (b := none)
    intro e
    have hsent : ¬((n : Int) = -1 ∨ (n : Int) = 0) := by omega
    obtain ⟨msg, hrejected⟩ := receiveDatagramPacket_rejected
      (h := afterDatagram (h.withLastError e) d rest n) hsent rfl hbad
    rw [hrun, hrejected]
    rfl

theorem receive_udp_independent_iff (hudp : h.socket.protocol = .udp) :
    StaleFree receive h ↔ h.socket.datagram = none ∨ ¬GivesCount 0 h.net.results := by
  have hrun : ∀ e, receive.run (h.withLastError e) =
      EStateM.run (do receiveDatagramPacket (← receiveDatagram)) (h.withLastError e) :=
    fun e => receive_udp (h := h.withLastError e) hudp
  cases hd : h.socket.datagram with
  | none =>
    refine iff_of_true ?_ (.inl rfl)
    apply Independent.of_const (b := none)
    intro e
    rw [hrun, EStateM.run_bind, receiveDatagram_null (h := h.withLastError e) hd]
    rfl
  | some d =>
    -- with a buffer it depends on what arrives
    simp only [reduceCtorEq, false_or]
    rcases answers_cases (min datagramSize h.net.inbound.length) h.net.results with
      ⟨n, rest, hres, hn⟩ | ⟨e, rest, hres, he⟩ | hpending
    · rw [hres]
      rcases Nat.eq_zero_or_pos n with rfl | hsome
      · -- the error is read after a success
        refine iff_of_false ?_ (not_not_intro (Nat.le_refl 0))
        apply not_staleFree
        intro e _
        rw [hrun, EStateM.run_bind, receiveDatagram_count (h := h.withLastError e) hd hres hn]
        exact ⟨_, rfl⟩
      · have hfree := staleFree_of_datagram hudp hd hres hn hsome
        exact iff_of_true hfree (Nat.not_le.mpr hsome)
    · rw [hres]
      refine iff_of_true ?_ id
      apply Independent.of_const (b := some (toState e, e))
      intro e'
      rw [hrun, EStateM.run_bind, receiveDatagram_failure (h := h.withLastError e') hd hres he]
      simp only [receiveDatagramPacket_ignored (.inl rfl)]
      rfl
    · refine iff_of_true ?_ ?_
      · apply Independent.of_const (b := none)
        intro e
        rw [hrun, EStateM.run_bind, receiveDatagram_pending (h := h.withLastError e) hd hpending]
        rfl
      · match hnext : h.net.results with
        | .count n :: rest =>
          rw [hnext] at hpending
          intro hzero
          obtain rfl : n = 0 := Nat.le_zero.mp hzero
          exact hpending (Nat.zero_le _)
        | .failure _ :: _ | [] => exact id

theorem receiveBody_independent_iff {t : ℕ} (ht : h.packet.recvTarget = t)
    (hpos : 0 < t ∧ t ≤ 65535) (hp : h.packet.InLimits) :
    StaleFree receiveBody h ↔ BodyFresh h.packet t h.net.results h.net.inbound.length := by
  unfold BodyFresh
  rcases Classical.em (Fits h.packet t) with hfits | hfits
  · simp only [hfits, not_true, false_or]
    rcases answers_cases (min t h.net.inbound.length) h.net.results with
      ⟨n, rest, hres, hn⟩ | ⟨e, rest, hres, he⟩ | hpending
    · rw [hres]
      -- the error is read after a success
      refine iff_of_false ?_ (not_not_intro hn)
      apply not_staleFree
      intro e _
      rw [receiveBody_count (h := h.withLastError e) ht hfits hres hn]
      exact ⟨_, rfl⟩
    · rw [hres]
      refine iff_of_true ?_ id
      apply Independent.of_const (b := some (toState e, e))
      intro e'
      rw [receiveBody_failure (h := h.withLastError e') ht hfits hpos.1 hres he]
      rfl
    · refine iff_of_true ?_ fun hcount => hpending (answers_of_givesCount hcount)
      apply Independent.of_const (b := none)
      intro e
      rw [receiveBody_pending (h := h.withLastError e) ht hfits hpending]
      rfl
  · -- the resize throws
    refine iff_of_true ?_ (.inl hfits)
    apply Independent.of_const (b := none)
    intro e
    obtain ⟨err, q, hrun, -, -⟩ := receiveBody_throws (h := h.withLastError e) ht hpos.2 hp hfits
    rw [hrun]
    rfl

/-- A call that starts a frame, and is told of a payload. -/
theorem receive_header_independent_iff (hstream : h.socket.protocol ≠ .udp) (hidle : Idle h.packet)
    {rest : List NativeResult} (hres : h.net.results = .count 2 :: rest)
    (hn : 2 ≤ min 2 h.net.inbound.length) (hsize : 0 < ofBytes (h.net.inbound.take 2)) :
    StaleFree receive h ↔
      BodyFresh { h.packet.cleared with recvTarget := ofBytes (h.net.inbound.take 2) }
        (ofBytes (h.net.inbound.take 2)) rest (h.net.inbound.length - 2) := by
  have hlen : (h.net.inbound.take 2).length = 2 := by rw [List.length_take]; omega
  have hlt := ofBytes_lt (h.net.inbound.take 2)
  rw [hlen] at hlt
  have hpacket : (afterHeader h rest 2).packet =
      { h.packet.cleared with recvTarget := ofBytes (h.net.inbound.take 2) } :=
    if_pos ⟨hlen, hsize⟩
  have htarget : (afterHeader h rest 2).packet.recvTarget = ofBytes (h.net.inbound.take 2) := by
    rw [hpacket]
  have hlimits : (afterHeader h rest 2).packet.InLimits := by
    rw [hpacket]
    exact Packet.inLimits_cleared h.packet
  -- the header does not read the error, and leaves it to the payload
  have hsame : StaleFree receive h ↔ StaleFree receiveBody (afterHeader h rest 2) := by
    apply independent_congr
    intro e
    have hheader := receiveHeader_count (h := h.withLastError e) hidle hres hn
    have htarget' : 0 < (afterHeader (h.withLastError e) rest 2).packet.recvTarget := by
      have hcast : (afterHeader (h.withLastError e) rest 2).packet.recvTarget = _ := htarget
      omega
    exact receive_announced hstream hheader htarget'
  have hbody := receiveBody_independent_iff htarget ⟨hsize, by omega⟩ hlimits
  have harriving : (afterHeader h rest 2).net.inbound.length = h.net.inbound.length - 2 :=
    List.length_drop
  rw [hsame, hbody, hpacket, harriving]
  rfl

/-- A call that starts a frame. -/
theorem receive_idle_independent_iff (hstream : h.socket.protocol ≠ .udp)
    (hidle : Idle h.packet) :
    StaleFree receive h ↔
      match h.net.results with
      | .count n :: rest =>
        min 2 h.net.inbound.length < n ∨
          (n = 2 ∧ 0 < ofBytes (h.net.inbound.take 2) ∧
            BodyFresh { h.packet.cleared with recvTarget := ofBytes (h.net.inbound.take 2) }
              (ofBytes (h.net.inbound.take 2)) rest (h.net.inbound.length - 2))
      | _ => True := by
  rcases answers_cases (min 2 h.net.inbound.length) h.net.results with
    ⟨n, rest, hres, hn⟩ | ⟨e, rest, hres, he⟩ | hpending
  · rw [hres]
    simp only [not_lt.mpr hn, false_or]
    have hheader := fun e => receiveHeader_count (h := h.withLastError e) hidle hres hn
    have hlen : (h.net.inbound.take n).length = n := by rw [List.length_take]; omega
    rcases Classical.em (n = 2 ∧ 0 < ofBytes (h.net.inbound.take n)) with ⟨rfl, hsize⟩ | hnone
    · -- a size was announced, and the payload is received
      simp only [true_and, hsize]
      exact receive_header_independent_iff hstream hidle hres hn hsize
    · -- no size was announced, and the error is read after a success
      refine iff_of_false ?_ fun hfresh => hnone ⟨hfresh.1, hfresh.1 ▸ hfresh.2.1⟩
      have hpacket : (afterHeader h rest n).packet = h.packet.cleared := by
        refine if_neg fun hsize => hnone ⟨hlen ▸ hsize.1, hsize.2⟩
      apply not_staleFree
      intro e _
      have htarget : (afterHeader (h.withLastError e) rest n).packet.recvTarget ≤ 0 := by
        have hcleared : (afterHeader (h.withLastError e) rest n).packet = _ := hpacket
        rw [hcleared]
        exact Int.le_of_lt hidle.2
      rw [receive_unannounced (h := h.withLastError e) hstream (hheader e) htarget]
      exact ⟨_, rfl⟩
  · rw [hres]
    refine iff_of_true ?_ trivial
    apply Independent.of_const (b := some (toState e, e))
    intro e'
    have hheader := receiveHeader_failure (h := h.withLastError e') hidle hres he
    rw [receive_unannounced (h := h.withLastError e') hstream hheader (Int.le_of_lt hidle.2)]
    rfl
  · have hfree : StaleFree receive h := by
      apply Independent.of_const (b := none)
      intro e
      have hheader := receiveHeader_pending (h := h.withLastError e) hidle hpending
      rw [receive_of_error (h := h.withLastError e) hstream hheader]
      rfl
    refine iff_of_true hfree ?_
    match hnext : h.net.results with
    | .count n :: rest =>
      rw [hnext] at hpending
      exact .inl (not_le.mp hpending)
    | .failure _ :: _ | [] => trivial

/-- A call that goes on with a frame. -/
theorem receive_resuming_independent_iff (hstream : h.socket.protocol ≠ .udp) {t : ℕ}
    (ht : h.packet.recvTarget = t) (hpos : 0 < t ∧ t ≤ 65535) (hp : h.packet.InLimits) :
    StaleFree receive h ↔ BodyFresh h.packet t h.net.results h.net.inbound.length := by
  have hsame : StaleFree receive h ↔ StaleFree receiveBody h := by
    apply independent_congr
    intro e
    exact receive_resuming (h := h.withLastError e) hstream
      (show 0 < h.packet.recvTarget by omega)
  rw [hsame]
  exact receiveBody_independent_iff ht hpos hp

/-- **Receiving.** -/
theorem receive_independent_iff (hp : Packet.Reachable h.packet) :
    StaleFree receive h ↔ ReceiveFresh h := by
  have hsound := Packet.reachable_sound hp
  unfold ReceiveFresh
  split
  next hudp => exact receive_udp_independent_iff hudp
  next hstream =>
    rcases hsound.idle_or_awaiting with hidle | ⟨t, ht, hpos⟩
    · rw [if_pos hidle.2]
      exact receive_idle_independent_iff hstream hidle
    · have hnot : ¬h.packet.recvTarget < 0 := by omega
      have htoNat : h.packet.recvTarget.toNat = t := by omega
      rw [if_neg hnot, htoNat]
      exact receive_resuming_independent_iff hstream ht hpos hsound.inLimits

end Receive

/-! ## Both calls -/

/-- **Stale errors.** For every protocol, every packet a program can have and all native
results, exactly these calls report the same whatever the last error was before them. -/
theorem staleError_iff {h : Host} (hp : Packet.Reachable h.packet) :
    (StaleFree send h ↔ SendFresh h) ∧ (StaleFree receive h ↔ ReceiveFresh h) :=
  ⟨send_independent_iff hp, receive_independent_iff hp⟩

/-- A packet that is sent at once. -/
theorem staleError_iff_sendingByte :
    (StaleFree send (sendingByte .tcp [.count 3]) ↔ SendFresh (sendingByte .tcp [.count 3])) ∧
      (StaleFree receive (sendingByte .tcp [.count 3]) ↔
        ReceiveFresh (sendingByte .tcp [.count 3])) :=
  staleError_iff (reachable_sendingByte _ _)

/-- A datagram that the network has taken whole, in a thread where an earlier call would have
blocked: the send says that it is in progress. -/
theorem not_staleFree_send :
    Packet.Reachable (sendingByte .udp [.count 3]).packet ∧
      report (send.run (sendingByte .udp [.count 3])) = some (.done, .none) ∧
      report (send.run ((sendingByte .udp [.count 3]).withLastError .wouldBlock)) =
        some (.inProgress, .wouldBlock) ∧
      ¬StaleFree send (sendingByte .udp [.count 3]) := by
  refine ⟨reachable_sendingByte _ _, rfl, rfl, ?_⟩
  apply not_independent .none .wouldBlock
  show some (SocketState.done, SocketError.none) ≠ some (.inProgress, .wouldBlock)
  decide

end Socket

end Sws
