import Sws.Packet.Sound

/-!
# The Status of a Send

`Socket::send` on a stream: a first native send, and a loop that goes on while the thread's
last error says that a send is in progress.  That error may be one that an earlier round left.

## Key Results

- `sendLoop_fuel`: the loop never runs out of its fuel.
- `send_truthful_iff`: for which native results the status says what was sent.
-/

namespace Sws.Socket

open Sws.Foundation

/-! ## Rounds of the loop -/

section Rounds

variable {h : Host} {rest : List NativeResult} {s fuel : ℕ} {result : SocketState}

/-- The first `s` bytes of the packet have been sent, and a send is in progress. -/
structure Sending (h : Host) (s : ℕ) : Prop where
  sendPos : h.packet.sendPos = s
  started : 0 < s
  le_length : s ≤ h.packet.data.length
  length_le : h.packet.data.length ≤ datagramSize

theorem Sending.remainder (hs : Sending h s) :
    h.packet.getSendRemainder = (h.packet.data.length - s : ℕ) := by
  obtain ⟨hpos, hstarted, hle, hlen⟩ := hs
  -- neither the difference nor the conversion wraps
  simp only [datagramSize] at hlen
  rw [Packet.getSendRemainder, if_neg (by omega), hpos,
    toPtrdiff_of_mem (by omega) (by omega)]
  omega

/-- The host after a round that sent `n` bytes more.  The error that is stored is whatever the
last failure left. -/
def advanced (h : Host) (rest : List NativeResult) (s n : ℕ) : Host :=
  { afterSend h rest s (h.packet.data.length - s : ℕ) n with
    packet := { h.packet with sendPos := (s + n : ℕ) }
    socket := { h.socket with nativeError := h.net.lastError } }

/-- The host after a round that failed. -/
def stalled (h : Host) (rest : List NativeResult) (s : ℕ) (e : SocketError) : Host :=
  { afterSendFailure h rest s (h.packet.data.length - s : ℕ) e with
    socket := { h.socket with nativeError := e } }

/-- What the loop does after a round. -/
def continueSend (fuel : ℕ) (state : SocketState) : HostM SocketState :=
  if state = .inProgress then sendLoop fuel state else pure state

theorem Sending.advanced {n : ℕ} (hs : Sending h s) (rest : List NativeResult)
    (hn : n ≤ h.packet.data.length - s) : Sending (advanced h rest s n) (s + n) where
  sendPos := rfl
  started := Nat.add_pos_left hs.started n
  le_length := by
    have hle := hs.le_length
    show s + n ≤ h.packet.data.length
    omega
  length_le := hs.length_le

theorem Sending.stalled {e : SocketError} (hs : Sending h s) : Sending (stalled h rest s e) s :=
  ⟨hs.sendPos, hs.started, hs.le_length, hs.length_le⟩

/-- With nothing left the loop returns the state of the last round. -/
theorem sendLoop_finished (hs : Sending h h.packet.data.length) :
    (sendLoop (fuel + 1) result).run h = .ok result h := by
  have hnone : h.packet.getSendRemainder ≤ 0 := by
    rw [hs.remainder]
    omega
  simp only [sendLoop, EStateM.run_bind, EStateM.run_get, if_pos hnone, EStateM.run_pure]

/-- The same behind the round that accepted all that was left. -/
theorem sendLoop_last (hs : Sending h s) (rest : List NativeResult) :
    (sendLoop (fuel + 1) result).run (advanced h rest s (h.packet.data.length - s)) =
      .ok result (advanced h rest s (h.packet.data.length - s)) := by
  have hall := hs.advanced rest (Nat.le_refl _)
  rw [Nat.add_sub_cancel' hs.le_length] at hall
  exact sendLoop_finished hall

/-- What a round comes down to while bytes are left. -/
theorem sendLoop_succ (hs : Sending h s) (hleft : s < h.packet.data.length) :
    (sendLoop (fuel + 1) result).run h =
      match (sendRange s (h.packet.data.length - s : ℕ)).run h with
      | .ok sent h' =>
        (do continueSend fuel (← getErrorState) : HostM SocketState).run
          (if sent > 0 then
            { h' with packet := { h'.packet with sendPos := h'.packet.sendPos + sent } }
          else h')
      | .error e h' => .error e h' := by
  have hsome : ¬((h.packet.data.length - s : ℕ) : Int) ≤ 0 := by omega
  simp only [sendLoop, EStateM.run_bind, EStateM.run_get, hs.sendPos, hs.remainder, if_neg hsome]
  cases (sendRange s (h.packet.data.length - s : ℕ)).run h with
  | error e h' => rfl
  | ok sent h' =>
    rcases Classical.em (sent > 0) with hsent | hsent
    · simp only [if_pos hsent, EStateM.run_bind, modifyPacket, EStateM.run_modify]
      rfl
    · simp only [if_neg hsent, EStateM.run_bind]
      rfl

theorem sendLoop_count {n : ℕ} (hs : Sending h s) (hleft : s < h.packet.data.length)
    (hres : h.net.results = .count n :: rest) (hn : n ≤ h.packet.data.length - s) :
    (sendLoop (fuel + 1) result).run h =
      (continueSend fuel (toState h.net.lastError)).run (advanced h rest s n) := by
  have hsent := sendRange_count s (h.packet.data.length - s : ℕ) hres hn
  -- a count of 0 leaves the position where it is
  have hprogress : (if (n : Int) > 0 then { h.packet with sendPos := h.packet.sendPos + (n : Int) }
      else h.packet) = { h.packet with sendPos := (s + n : ℕ) } := by
    rw [Nat.cast_add, ← hs.sendPos]
    rcases Nat.eq_zero_or_pos n with hzero | hsome
    · simp [hzero]
    · rw [if_pos (by omega)]
  have hhost : (if (n : Int) > 0 then
      { afterSend h rest s (h.packet.data.length - s : ℕ) n with
        packet := { h.packet with sendPos := h.packet.sendPos + (n : Int) } }
      else afterSend h rest s (h.packet.data.length - s : ℕ) n) =
      { afterSend h rest s (h.packet.data.length - s : ℕ) n with
        packet := { h.packet with sendPos := (s + n : ℕ) } } := by
    rw [← hprogress]
    split_ifs <;> rfl
  rw [sendLoop_succ hs hleft, hsent]
  exact congrArg (EStateM.run (do continueSend fuel (← getErrorState))) hhost

theorem sendLoop_failure {e : SocketError} (hs : Sending h s) (hleft : s < h.packet.data.length)
    (hres : h.net.results = .failure e :: rest) (he : e ≠ .none) :
    (sendLoop (fuel + 1) result).run h =
      (continueSend fuel (toState e)).run (stalled h rest s e) := by
  have hsent := sendRange_failure s (h.packet.data.length - s : ℕ) hres he
  rw [sendLoop_succ hs hleft, hsent]
  rfl

theorem sendLoop_pending (fuel : ℕ) (result : SocketState) (hs : Sending h s)
    (hleft : s < h.packet.data.length) (hres : ¬Answers (h.packet.data.length - s) h.net.results) :
    ∃ h', (sendLoop (fuel + 1) result).run h = .error .pending h' := by
  have hsent := sendRange_pending s (h.packet.data.length - s : ℕ) hres
  rw [sendLoop_succ hs hleft, hsent]
  exact ⟨_, rfl⟩

end Rounds

/-! ## The fuel -/

/-- Every round that goes on uses up a native result, so the loop does not see its fuel. -/
theorem sendLoop_fuel {h : Host} {s fuel fuel' : ℕ} (hs : Sending h s)
    (hfuel : h.net.results.length < fuel) (hfuel' : h.net.results.length < fuel')
    (result : SocketState) :
    (sendLoop fuel result).run h = (sendLoop fuel' result).run h := by
  induction fuel generalizing h s fuel' result with
  | zero => omega
  | succ fuel ih =>
    -- by induction on the fuel: a round that goes on has used up a native result
    obtain ⟨fuel', rfl⟩ := Nat.exists_eq_succ_of_ne_zero (show fuel' ≠ 0 by omega)
    rcases Nat.lt_or_ge s h.packet.data.length with hleft | hall
    · rcases answers_cases (h.packet.data.length - s) h.net.results with
        ⟨n, rest, hres, hn⟩ | ⟨e, rest, hres, he⟩ | hpending
      · rw [hres, List.length_cons] at hfuel hfuel'
        rw [sendLoop_count hs hleft hres hn, sendLoop_count hs hleft hres hn]
        unfold continueSend
        split
        · exact ih (hs.advanced rest hn) (show rest.length < fuel by omega)
            (show rest.length < fuel' by omega) _
        · rfl
      · rw [hres, List.length_cons] at hfuel hfuel'
        rw [sendLoop_failure hs hleft hres he, sendLoop_failure hs hleft hres he]
        unfold continueSend
        split
        · exact ih hs.stalled (show rest.length < fuel by omega)
            (show rest.length < fuel' by omega) _
        · rfl
      · have hrange := sendRange_pending s (h.packet.data.length - s : ℕ) hpending
        rw [sendLoop_succ hs hleft, sendLoop_succ hs hleft, hrange]
    · obtain rfl : s = h.packet.data.length := Nat.le_antisymm hs.le_length hall
      rw [sendLoop_finished hs, sendLoop_finished hs]

/-! ## One call -/

section Empty

variable {h : Host}

theorem send_empty (hempty : h.packet.empty = true) :
    send.run h = .ok .done
      { h with
        packet := h.packet.sendReset
        socket := { h.socket with nativeError := .none } } := by
  simp only [send, EStateM.run_bind, EStateM.run_get, hempty, if_true, modifyPacket,
    EStateM.run_modify, clearErrorState_run]

/-- A "connected" datagram socket sends once. -/
theorem send_udp (hudp : h.socket.protocol = .udp) (hfull : h.packet.empty = false) :
    send.run h = EStateM.run (do
      let _ ← sendRange 0 h.packet.data.length
      getErrorState) h := by
  simp only [send, EStateM.run_bind, EStateM.run_get, hfull, Bool.false_eq_true, if_false,
    if_pos hudp]

end Empty

section Stream

variable {h : Host} {rest : List NativeResult}

/-- A packet with a payload is about to be sent on a stream. -/
structure Sendable (h : Host) : Prop where
  stream : h.socket.protocol ≠ .udp
  nonempty : h.packet.empty = false
  idle : h.packet.sendPos = -1
  length_le : h.packet.data.length ≤ datagramSize

theorem Sendable.of_reachable (htcp : h.socket.protocol ≠ .udp) (hfull : h.packet.empty = false)
    (hp : Packet.Reachable h.packet) : Sendable h :=
  have hsound := Packet.reachable_sound hp
  ⟨htcp, hfull, hsound.sendPos, hsound.inLimits.1⟩

/-- The host after a first native send of `n` bytes. -/
def begun (h : Host) (rest : List NativeResult) (n : ℕ) : Host :=
  { afterSend h rest 0 h.packet.data.length n with
    packet := { h.packet with sendPos := n } }

/-- The end of a call resets the progress. -/
def resetSent : EStateM.Result Fault Host SocketState → EStateM.Result Fault Host SocketState
  | .ok state h => .ok state { h with packet := h.packet.sendReset }
  | .error e h => .error e h

theorem Sendable.begun {n : ℕ} (hs : Sendable h) (rest : List NativeResult) (hn : 0 < n)
    (hle : n ≤ h.packet.data.length) : Sending (begun h rest n) n :=
  ⟨rfl, hn, hle, hs.length_le⟩

theorem Sendable.reset (hs : Sendable h) : h.packet.sendReset = h.packet := by
  rw [Packet.sendReset, ← hs.idle]

/-- What a call on a stream comes down to. -/
theorem send_eq (hs : Sendable h) :
    send.run h =
      match (sendRange 0 h.packet.data.length).run h with
      | .ok sent h' =>
        let h' := if sent > 0 then { h' with packet := { h'.packet with sendPos := sent } } else h'
        resetSent ((sendLoop (h'.net.results.length + 1) .done).run h')
      | .error e h' => .error e h' := by
  simp only [send, EStateM.run_bind, EStateM.run_get, hs.nonempty, Bool.false_eq_true, if_false,
    if_neg hs.stream, hs.idle, if_true]
  cases (sendRange 0 h.packet.data.length).run h with
  | error e h' => rfl
  | ok sent h' =>
    -- whatever the loop returns, the progress is reset behind it
    have hloop : ∀ g : Host, EStateM.run (do
        let result ← sendLoop ((← get).net.results.length + 1) .done
        modifyPacket Packet.sendReset
        return result) g = resetSent ((sendLoop (g.net.results.length + 1) .done).run g) := by
      intro g
      simp only [EStateM.run_bind, EStateM.run_get]
      cases (sendLoop (g.net.results.length + 1) .done).run g <;> rfl
    rcases Classical.em (sent > 0) with hsent | hsent
    · simp only [if_pos hsent]
      exact hloop { h' with packet := { h'.packet with sendPos := sent } }
    · simp only [if_neg hsent]
      exact hloop h'

/-- Without progress the loop is left at once. -/
theorem sendLoop_unsent (fuel : ℕ) (state : SocketState) (hpos : h.packet.sendPos = -1) :
    (sendLoop (fuel + 1) state).run h = .ok state h := by
  have hnone : h.packet.getSendRemainder ≤ 0 := by
    rw [Packet.getSendRemainder, if_pos (by omega)]
  simp only [sendLoop, EStateM.run_bind, EStateM.run_get, if_pos hnone, EStateM.run_pure]

/-- A first native send that accepts nothing ends the call. -/
theorem send_nothing (hs : Sendable h) (hres : h.net.results = .count 0 :: rest) :
    send.run h = .ok .done (afterSend h rest 0 h.packet.data.length 0) := by
  have hsent := sendRange_count 0 h.packet.data.length hres (Nat.zero_le _)
  have hloop := sendLoop_unsent (h := afterSend h rest 0 h.packet.data.length 0) rest.length .done
    hs.idle
  rw [send_eq hs, hsent]
  refine (congrArg resetSent hloop).trans ?_
  show EStateM.Result.ok _ { afterSend h rest 0 h.packet.data.length 0 with
    packet := h.packet.sendReset } = _
  rw [hs.reset]
  rfl

/-- So does one that fails, and the call reports no failure. -/
theorem send_failure {e : SocketError} (hs : Sendable h)
    (hres : h.net.results = .failure e :: rest) (he : e ≠ .none) :
    send.run h = .ok .done (afterSendFailure h rest 0 h.packet.data.length e) := by
  have hsent := sendRange_failure 0 h.packet.data.length hres he
  have hloop := sendLoop_unsent (h := afterSendFailure h rest 0 h.packet.data.length e)
    rest.length .done hs.idle
  rw [send_eq hs, hsent]
  refine (congrArg resetSent hloop).trans ?_
  show EStateM.Result.ok _ { afterSendFailure h rest 0 h.packet.data.length e with
    packet := h.packet.sendReset } = _
  rw [hs.reset]
  rfl

theorem send_count {n : ℕ} (hs : Sendable h) (hres : h.net.results = .count n :: rest)
    (hn : 0 < n) (hle : n ≤ h.packet.data.length) :
    send.run h = resetSent ((sendLoop (rest.length + 1) .done).run (begun h rest n)) := by
  have hsent := sendRange_count 0 h.packet.data.length hres
    (by rw [Int.toNat_natCast]; exact hle)
  have hcount : (n : Int) > 0 := by omega
  rw [send_eq hs, hsent]
  simp only [if_pos hcount]
  rfl

theorem send_pending (hs : Sendable h) (hres : ¬Answers h.packet.data.length h.net.results) :
    ∃ h', send.run h = .error .pending h' := by
  have hsent := sendRange_pending (h := h) 0 h.packet.data.length
    (by rw [Int.toNat_natCast]; exact hres)
  rw [send_eq hs, hsent]
  exact ⟨_, rfl⟩

theorem resetSent_ok {r : EStateM.Result Fault Host SocketState} {state : SocketState} {h' : Host}
    (h : resetSent r = .ok state h') :
    ∃ h₁, r = .ok state h₁ ∧ h'.net = h₁.net ∧ h'.socket = h₁.socket := by
  cases r with
  | ok state₁ h₁ =>
    cases h
    exact ⟨h₁, rfl, rfl, rfl⟩
  | error e h₁ => cases h

end Stream

/-! ## Truthful results -/

/-- After a transient failure, the native sends fail for good before they have accepted the
last of the bytes that remain. -/
def FailsForGood : List NativeResult → (remaining : ℕ) → Prop
  | [], _ => False
  | .count n :: rest, remaining => n < remaining ∧ FailsForGood rest (remaining - n)
  | .failure e :: rest, remaining =>
    toState e = .closed ∨ toState e = .error ∨
      (toState e = .inProgress ∧ FailsForGood rest remaining)

/-- The native results for which the status of a send tells what happened: the first native
send accepts everything; or part of it, and then the second accepts the rest; or the second
fails, and no later one completes the packet. -/
def TellsTruth (size : ℕ) : List NativeResult → Prop
  | .count n :: rest => n = size ∨ (0 < n ∧
    match rest with
    | .count m :: _ => n + m = size
    | _ => FailsForGood rest (size - n))
  | _ => False

section Truthful

variable {h h' : Host} {rest : List NativeResult} {s fuel : ℕ} {result state : SocketState}
  {before : List UInt8}

/-- A part of the packet is not the whole of it. -/
theorem accepted_ne (hleft : s < h.packet.data.length) :
    before ++ h.packet.data.take s ≠ before ++ h.packet.data := by
  intro heq
  have hlen := congrArg List.length (List.append_cancel_left heq)
  rw [List.length_take] at hlen
  omega

theorem accepted_advanced {n : ℕ} (hacc : h.net.accepted = before ++ h.packet.data.take s) :
    (advanced h rest s n).net.accepted = before ++ h.packet.data.take (s + n) := by
  show h.net.accepted ++ (h.packet.data.drop s).take n = _
  rw [hacc, List.append_assoc, List.take_add]

/-- Rounds in which every count comes after a transient failure.  A count leaves the thread's
last error as it was, so the loop goes on after it, and ends as in progress when it has nothing
left to send. -/
theorem sendLoop_stale (hs : Sending h s) (hleft : s < h.packet.data.length)
    (hstale : ∀ n rest, h.net.results = .count n :: rest → toState h.net.lastError = .inProgress)
    (hacc : h.net.accepted = before ++ h.packet.data.take s)
    (hrun : (sendLoop fuel result).run h = .ok state h') :
    (state = .done ↔ h'.net.accepted = before ++ h.packet.data) ↔
      FailsForGood h.net.results (h.packet.data.length - s) := by
  induction fuel generalizing h s result with
  | zero => cases hrun
  | succ fuel ih =>
    rcases answers_cases (h.packet.data.length - s) h.net.results with
      ⟨n, rest, hres, hn⟩ | ⟨e, rest, hres, he⟩ | hpending
    · -- the error is still the transient one
      have hstale := hstale n rest hres
      rw [sendLoop_count hs hleft hres hn, hstale, continueSend, if_pos rfl] at hrun
      have hsent : (advanced h rest s n).net.accepted = before ++ h.packet.data.take (s + n) :=
        accepted_advanced hacc
      rw [hres]
      rcases Nat.lt_or_ge (s + n) h.packet.data.length with hmore | hall
      · have hstep := ih (hs.advanced rest hn) hmore (fun _ _ _ => hstale) hsent hrun
        have hless : n < h.packet.data.length - s := by omega
        have hrest : FailsForGood rest (h.packet.data.length - s - n) ↔
            FailsForGood rest (h.packet.data.length - (s + n)) := by rw [Nat.sub_sub]
        simp only [FailsForGood, hless, true_and, hrest]
        exact hstep
      · -- the last byte was accepted: the next round returns the state of this one
        obtain rfl : n = h.packet.data.length - s := by omega
        cases fuel with
        | zero => cases hrun
        | succ fuel =>
          rw [sendLoop_last hs] at hrun
          cases hrun
          rw [Nat.add_sub_cancel' hs.le_length, List.take_length] at hsent
          simp [FailsForGood, hsent]
    · rw [sendLoop_failure hs hleft hres he] at hrun
      have hsent : (stalled h rest s e).net.accepted = before ++ h.packet.data.take s := hacc
      rw [hres]
      cases hstate : toState e with
      | inProgress =>
        -- the loop tries again, and the error is transient from here on
        rw [hstate, continueSend, if_pos rfl] at hrun
        have hstep := ih hs.stalled hleft (fun _ _ _ => hstate) hsent hrun
        simp only [FailsForGood, hstate, reduceCtorEq, false_or, true_and]
        exact hstep
      | done =>
        -- `WSAEISCONN` ends the loop as if all had been sent
        rw [hstate] at hrun
        cases hrun
        have hpart : ¬before ++ h.packet.data.take s = before ++ h.packet.data := accepted_ne hleft
        simp [FailsForGood, hstate, hsent, hpart, -List.append_cancel_left_eq]
      | closed | error =>
        rw [hstate] at hrun
        cases hrun
        simp only [FailsForGood, hstate, hsent, reduceCtorEq, false_iff, true_or, or_true, iff_true]
        exact accepted_ne hleft
    · obtain ⟨h₁, hrange⟩ := sendLoop_pending fuel result hs hleft hpending
      rw [hrange] at hrun
      cases hrun

/-- The rounds after a first native send that accepted a part of the packet. -/
theorem begun_truthful {n : ℕ} (hs : Sendable h) (hn : 0 < n) (hleft : n < h.packet.data.length)
    (hnone : h.net.lastError = .none)
    (hloop : (sendLoop (fuel + 1) .done).run (begun h rest n) = .ok state h') :
    (state = .done ↔ h'.net.accepted = h.net.accepted ++ h.packet.data) ↔
      TellsTruth h.packet.data.length (.count n :: rest) := by
  have hbegun := hs.begun rest hn (Nat.le_of_lt hleft)
  have hacc : (begun h rest n).net.accepted = h.net.accepted ++ h.packet.data.take n := rfl
  have hfirst : ¬n = h.packet.data.length := Nat.ne_of_lt hleft
  simp only [TellsTruth, hfirst, hn, false_or, true_and]
  rcases answers_cases (h.packet.data.length - n) rest with
    ⟨m, rest', hrest, hm⟩ | ⟨e, rest', hrest, he⟩ | hpending
  · -- a second count is the last round, since no error has been set
    rw [sendLoop_count hbegun hleft hrest hm] at hloop
    have hstate : toState (begun h rest n).net.lastError = .done := congrArg toState hnone
    rw [hstate] at hloop
    cases hloop
    have hsent : (advanced (begun h rest n) rest' n m).net.accepted =
        h.net.accepted ++ h.packet.data.take (n + m) := accepted_advanced hacc
    rw [hsent, hrest]
    simp only [true_iff]
    constructor
    · intro heq
      by_contra hpart
      exact accepted_ne (by omega) heq
    · intro hall
      rw [hall, List.take_length]
  · -- from a failure on, the error that the loop reads is never older than the call
    have hstale : ∀ m rest', rest = .count m :: rest' → toState h.net.lastError = .inProgress := by
      intro m rest' hcount
      rw [hrest] at hcount
      cases hcount
    have hrounds := sendLoop_stale hbegun hleft hstale hacc hloop
    rw [hrest] at hrounds ⊢
    exact hrounds
  · obtain ⟨h₂, hrange⟩ := sendLoop_pending fuel .done hbegun hleft hpending
    rw [hrange] at hloop
    cases hloop

/-- **Truthful sends.** When no error was pending before the call, exactly for these native
results a call that returns reports `done` if and only if the whole packet was accepted. -/
theorem send_truthful_iff (htcp : h.socket.protocol = .tcp) (hp : Packet.Reachable h.packet)
    (hfull : h.packet.empty = false) (hnone : h.net.lastError = .none)
    (hrun : send.run h = .ok state h') :
    (state = .done ↔ h'.net.accepted = h.net.accepted ++ h.packet.data) ↔
      TellsTruth h.packet.data.length h.net.results := by
  have hs := Sendable.of_reachable (ne_udp_of_tcp htcp) hfull hp
  have hsize : 0 < h.packet.data.length := by
    rw [← Bool.not_eq_true, Packet.empty_iff] at hfull
    omega
  -- the packet is not empty, so that nothing is not all of it
  have hnothing : ¬h.net.accepted = h.net.accepted ++ h.packet.data := by
    intro heq
    have hlen := congrArg List.length heq
    rw [List.length_append] at hlen
    omega
  rcases answers_cases h.packet.data.length h.net.results with
    ⟨n, rest, hres, hn⟩ | ⟨e, rest, hres, he⟩ | hpending
  · rcases Nat.eq_zero_or_pos n with rfl | hsome
    · -- nothing was accepted
      rw [send_nothing hs hres] at hrun
      cases hrun
      have hzero : ¬0 = h.packet.data.length := by omega
      simp only [TellsTruth, hres, hzero, Nat.lt_irrefl, false_and, or_false, true_iff, iff_false]
      show ¬h.net.accepted ++ [] = h.net.accepted ++ h.packet.data
      rw [List.append_nil]
      exact hnothing
    rw [send_count hs hres hsome hn] at hrun
    obtain ⟨h₁, hloop, hnet, -⟩ := resetSent_ok hrun
    rw [hnet, hres]
    rcases Nat.lt_or_ge n h.packet.data.length with hleft | hall
    · exact begun_truthful hs hsome hleft hnone hloop
    · -- everything was accepted, and the loop has nothing left to send
      obtain rfl : n = h.packet.data.length := by omega
      have hbegun := hs.begun rest hsome hn
      have hacc : (begun h rest h.packet.data.length).net.accepted =
          h.net.accepted ++ h.packet.data.take h.packet.data.length := rfl
      rw [sendLoop_finished hbegun] at hloop
      cases hloop
      rw [hacc, List.take_length]
      simp [TellsTruth]
  · rw [send_failure hs hres he] at hrun
    cases hrun
    simp only [TellsTruth, hres, true_iff, iff_false]
    exact hnothing
  · obtain ⟨h₁, hsend⟩ := send_pending hs hpending
    rw [hsend] at hrun
    cases hrun

end Truthful

/-- A socket with a packet of one byte to send. -/
def sendingByte (protocol : Protocol) (results : List NativeResult) : Host where
  socket := { handle := some 1, protocol }
  packet := { data := [1, 0, 7], writePos := 3 }
  net := { results }

theorem reachable_sendingByte (protocol : Protocol) (results : List NativeResult) :
    Packet.Reachable (sendingByte protocol results).packet :=
  Packet.reachable_written [7] rfl

/-- Everything is accepted at once. -/
theorem send_truthful_iff_whole :
    (SocketState.done = .done ↔ ([1, 0, 7] : List UInt8) = [] ++ [1, 0, 7]) ↔
      TellsTruth 3 [.count 3] := by
  have hrun : send.run (sendingByte .tcp [.count 3]) = .ok .done { sendingByte .tcp [] with
      net := { accepted := [1, 0, 7], offered := [(0, 3)] } } := rfl
  exact send_truthful_iff rfl (reachable_sendingByte _ _) rfl rfl hrun

/-- A send whose only native send fails reports `done`, and nothing was sent. -/
theorem not_send_truthful :
    ∃ h h' : Host, h.socket.protocol = .tcp ∧ Packet.Reachable h.packet ∧
      h.packet.empty = false ∧ h.net.lastError = .none ∧
      send.run h = .ok .done h' ∧ h'.net.accepted ≠ h.net.accepted ++ h.packet.data :=
  ⟨sendingByte .tcp [.failure .connectionReset],
    { sendingByte .tcp [] with net := { lastError := .connectionReset, offered := [(0, 3)] } },
    rfl, reachable_sendingByte _ _, rfl, rfl, rfl, by decide⟩

end Sws.Socket
