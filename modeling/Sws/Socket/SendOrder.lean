import Sws.Socket.Send

/-!
# The Order of a Send

What a send on a stream hands to the native calls, call by call, and what a second send of the
same packet does after one that was interrupted.

The moments of a call are its states when a native call is made, and the one in which the loop
ends.  Those are the final states of the call on the first `k` native results: with fewer
results than it asks for, a call does not return from the native call that has none.

## Key Results

- `sendLoop_inOrder`, `rounds_inOrder`: what every round keeps.
- `send_inOrder`: within one call nothing is skipped, repeated or out of range.
- `interrupted_iff`: the native results on which a call gives up.
- `resumes_iff`: after those, the next call does not go on where this one stopped.
-/

namespace Sws.Socket

open Sws.Foundation

/-! ## Moments of a call -/

/-- `send` on a stream with a packet that is not empty, up to its last statement, which resets
the progress. -/
def rounds : HostM SocketState := do
  if (← get).packet.sendPos = -1 then
    let sent ← sendRange 0 (← get).packet.data.length
    if sent > 0 then modifyPacket fun p => { p with sendPos := sent }
  sendLoop ((← get).net.results.length + 1) .done

/-- The host with no more than the first `k` native results. -/
def cutAfter (h : Host) (k : ℕ) : Host :=
  { h with net := { h.net with results := h.net.results.take k } }

/-- `g` is the host at a moment of a call that starts in `h`. -/
def Moment (h g : Host) : Prop :=
  ∃ k, g = finalState (rounds.run (cutAfter h k))

/-- The bytes of the packet that the call has sent. -/
def progress (p : Packet) : ℕ :=
  if p.sendPos = -1 then 0 else p.sendPos.toNat

/-- The range has a byte, and is part of a buffer of the given size. -/
def PartOf (size : ℕ) (range : Int × Int) : Prop :=
  0 ≤ range.1 ∧ 0 < range.2 ∧ range.1 + range.2 ≤ size

/-- Up to `g`, a call that started in `h` has sent the packet from its start on. -/
structure InOrder (h g : Host) : Prop where
  data_eq : g.packet.data = h.packet.data
  sendPos : g.packet.sendPos = -1 ∨
    (0 < g.packet.sendPos ∧ g.packet.sendPos ≤ h.packet.data.length)
  /-- What has been accepted is the packet up to its send position. -/
  accepted_eq : g.net.accepted = h.net.accepted ++ h.packet.data.take (progress g.packet)
  /-- What has been offered are parts of the buffer. -/
  offered_eq : ∃ ranges, g.net.offered = h.net.offered ++ ranges ∧
    ∀ range ∈ ranges, PartOf h.packet.data.length range
  protocol_eq : g.socket.protocol = h.socket.protocol

section Rounds

variable {h g : Host} {rest : List NativeResult} {s fuel : ℕ} {result : SocketState}

theorem InOrder.start (hidle : h.packet.sendPos = -1) : InOrder h h where
  data_eq := rfl
  sendPos := .inl hidle
  accepted_eq := by rw [progress, if_pos hidle, List.take_zero, List.append_nil]
  offered_eq := ⟨[], (List.append_nil _).symm, by simp⟩
  protocol_eq := rfl

theorem Sending.progress_eq (hs : Sending g s) : progress g.packet = s := by
  have hpos := hs.sendPos
  rw [progress, if_neg (by omega), hpos, Int.toNat_natCast]

/-- The rest of a buffer is a part of it, if there is a rest. -/
theorem partOf_rest {size : ℕ} (hleft : s < size) :
    PartOf size ((s : Int), ((size - s : ℕ) : Int)) := by
  refine ⟨Int.natCast_nonneg s, ?_, ?_⟩
  · show 0 < ((size - s : ℕ) : Int)
    omega
  · show (s : Int) + ((size - s : ℕ) : Int) ≤ size
    omega

/-- The next native call is handed what is left of the packet. -/
theorem InOrder.offer (hg : InOrder h g) (hleft : s < g.packet.data.length) :
    InOrder h (offering g s (g.packet.data.length - s : ℕ)) where
  data_eq := hg.data_eq
  sendPos := hg.sendPos
  accepted_eq := hg.accepted_eq
  offered_eq := by
    obtain ⟨ranges, hranges, hparts⟩ := hg.offered_eq
    refine ⟨ranges ++ [((s : Int), ((g.packet.data.length - s : ℕ) : Int))], ?_, ?_⟩
    · show g.net.offered ++ _ = _
      rw [hranges, List.append_assoc]
    · intro range hrange
      rcases List.mem_append.mp hrange with hold | hnew
      · exact hparts range hold
      · rw [List.mem_singleton.mp hnew, ← hg.data_eq]
        exact partOf_rest hleft
  protocol_eq := hg.protocol_eq

theorem InOrder.advanced (hg : InOrder h g) (hs : Sending g s) (hleft : s < g.packet.data.length)
    (rest : List NativeResult) {n : ℕ} (hn : n ≤ g.packet.data.length - s) :
    InOrder h (advanced g rest s n) where
  data_eq := hg.data_eq
  sendPos := by
    have hstarted := hs.started
    have hdata := hg.data_eq
    refine .inr ⟨?_, ?_⟩
    · show (0 : Int) < (s + n : ℕ)
      omega
    · show ((s + n : ℕ) : Int) ≤ h.packet.data.length
      rw [← hdata]
      omega
  accepted_eq := by
    -- the bytes accepted now follow those accepted before
    have hbefore := hg.accepted_eq
    rw [hs.progress_eq, ← hg.data_eq] at hbefore
    rw [(hs.advanced rest hn).progress_eq, ← hg.data_eq]
    exact accepted_advanced hbefore
  offered_eq := (hg.offer hleft).offered_eq
  protocol_eq := hg.protocol_eq

theorem InOrder.stalled (hg : InOrder h g) (hleft : s < g.packet.data.length)
    (rest : List NativeResult) (e : SocketError) : InOrder h (stalled g rest s e) where
  data_eq := hg.data_eq
  sendPos := hg.sendPos
  accepted_eq := hg.accepted_eq
  offered_eq := (hg.offer hleft).offered_eq
  protocol_eq := hg.protocol_eq

/-- **The loop** keeps the order, in whatever round it stops, and does not lose its position. -/
theorem sendLoop_inOrder (hs : Sending g s) (hg : InOrder h g) :
    InOrder h (finalState ((sendLoop fuel result).run g)) ∧
      0 < (finalState ((sendLoop fuel result).run g)).packet.sendPos := by
  induction fuel generalizing g s result with
  | zero =>
    have hpos := hs.sendPos
    have hstarted := hs.started
    exact ⟨hg, show 0 < g.packet.sendPos by omega⟩
  | succ fuel ih =>
    have hpos := hs.sendPos
    have hstarted := hs.started
    rcases Nat.lt_or_ge s g.packet.data.length with hleft | hall
    · rcases answers_cases (g.packet.data.length - s) g.net.results with
        ⟨n, rest, hres, hn⟩ | ⟨e, rest, hres, he⟩ | hpending
      · -- a round that sends; the loop goes on or is left behind it
        have hnext := hs.advanced rest hn
        have hkept := hg.advanced hs hleft rest hn
        rw [sendLoop_count hs hleft hres hn, continueSend]
        split_ifs
        · exact ih hnext hkept
        · exact ⟨hkept, show (0 : Int) < (s + n : ℕ) by omega⟩
      · -- a round that fails
        have hkept := hg.stalled hleft rest e
        rw [sendLoop_failure hs hleft hres he, continueSend]
        split_ifs
        · exact ih hs.stalled hkept
        · exact ⟨hkept, show 0 < g.packet.sendPos by omega⟩
      · -- a native call that does not return
        have hoffered := sendRange_pending (h := g) s (g.packet.data.length - s : ℕ) hpending
        rw [sendLoop_succ hs hleft, hoffered]
        exact ⟨hg.offer hleft, show 0 < g.packet.sendPos by omega⟩
    · obtain rfl : s = g.packet.data.length := Nat.le_antisymm hs.le_length hall
      rw [sendLoop_finished hs]
      exact ⟨hg, show 0 < g.packet.sendPos by omega⟩

/-! ## One call -/

theorem rounds_eq (hs : Sendable h) :
    rounds.run h =
      match (sendRange 0 h.packet.data.length).run h with
      | .ok sent h' =>
        let h' := if sent > 0 then { h' with packet := { h'.packet with sendPos := sent } } else h'
        (sendLoop (h'.net.results.length + 1) .done).run h'
      | .error e h' => .error e h' := by
  simp only [rounds, EStateM.run_bind, EStateM.run_get, hs.idle, if_true]
  cases (sendRange 0 h.packet.data.length).run h with
  | error e h' => rfl
  | ok sent h' =>
    rcases Classical.em (sent > 0) with hsent | hsent
    · simp only [if_pos hsent]
      rfl
    · simp only [if_neg hsent]
      rfl

/-- What a call comes down to: the rounds, and the reset behind them. -/
theorem send_rounds (hs : Sendable h) : send.run h = resetSent (rounds.run h) := by
  rw [send_eq hs, rounds_eq hs]
  cases (sendRange 0 h.packet.data.length).run h <;> rfl

/-- The rounds end with the first native send, or begin with what it has accepted. -/
theorem rounds_cases (hs : Sendable h) :
    ((∀ n rest, h.net.results = .count n :: rest → n = 0) ∧
      ∃ g, rounds.run h = .ok .done g ∧ InOrder (offering h 0 h.packet.data.length) g) ∨
    (∃ n rest, h.net.results = .count n :: rest ∧ (0 < n ∧ n ≤ h.packet.data.length) ∧
      rounds.run h = (sendLoop (rest.length + 1) .done).run (begun h rest n)) ∨
    (¬Answers h.packet.data.length h.net.results ∧
      rounds.run h = .error .pending (offering h 0 h.packet.data.length)) := by
  have hoffered : InOrder (offering h 0 h.packet.data.length)
      (offering h 0 h.packet.data.length) := .start hs.idle
  rw [rounds_eq hs]
  rcases answers_cases h.packet.data.length h.net.results with
    ⟨n, rest, hres, hn⟩ | ⟨e, rest, hres, he⟩ | hpending
  · have hsent := sendRange_count 0 h.packet.data.length hres
      (by rw [Int.toNat_natCast]; exact hn)
    rw [hsent]
    rcases Nat.eq_zero_or_pos n with rfl | hsome
    · have hcount : ¬((0 : ℕ) : Int) > 0 := by omega
      simp only [if_neg hcount]
      refine .inl ⟨fun n rest hres' => ?_, _, sendLoop_unsent rest.length .done hs.idle, ?_⟩
      · rw [hres] at hres'
        cases hres'
        rfl
      -- a count of 0 adds nothing to what was accepted
      refine ⟨rfl, .inl hs.idle, ?_, hoffered.offered_eq, rfl⟩
      show h.net.accepted ++ (h.packet.data.drop 0).take 0 = _
      rw [List.take_zero, List.append_nil]
      exact hoffered.accepted_eq
    · have hcount : (n : Int) > 0 := by omega
      simp only [if_pos hcount]
      exact .inr (.inl ⟨n, rest, hres, ⟨hsome, hn⟩, rfl⟩)
  · rw [sendRange_failure 0 h.packet.data.length hres he]
    refine .inl ⟨fun n rest hres' => ?_, _, sendLoop_unsent rest.length .done hs.idle, ?_⟩
    · rw [hres] at hres'
      cases hres'
    exact ⟨rfl, .inl hs.idle, hoffered.accepted_eq, hoffered.offered_eq, rfl⟩
  · have hrange := sendRange_pending (h := h) 0 h.packet.data.length
      (by rw [Int.toNat_natCast]; exact hpending)
    rw [hrange]
    exact .inr (.inr ⟨hpending, rfl⟩)

/-- After the first native send the packet is sent up to what it accepted. -/
theorem InOrder.begun {n : ℕ} (hn : 0 < n) (hle : n ≤ h.packet.data.length) :
    InOrder (offering h 0 h.packet.data.length) (begun h rest n) where
  data_eq := rfl
  sendPos := .inr ⟨show (0 : Int) < n by omega, show (n : Int) ≤ h.packet.data.length by omega⟩
  accepted_eq := by
    have hsent : progress { h.packet with sendPos := (n : Int) } = n := by
      rw [progress, if_neg (show (n : Int) ≠ -1 by omega)]
      rfl
    show h.net.accepted ++ h.packet.data.take n = h.net.accepted ++ h.packet.data.take
      (progress { h.packet with sendPos := (n : Int) })
    rw [hsent]
  offered_eq := ⟨[], (List.append_nil _).symm, by simp⟩
  protocol_eq := rfl

/-- A call offers the whole packet first, and is in order from there on. -/
theorem rounds_after_offer (hs : Sendable h) :
    InOrder (offering h 0 h.packet.data.length) (finalState (rounds.run h)) := by
  rcases rounds_cases hs with ⟨-, g, hrun, hg⟩ | ⟨n, rest, hres, ⟨hn, hle⟩, hrun⟩ | ⟨-, hrun⟩
  · rw [hrun]
    exact hg
  · rw [hrun]
    exact (sendLoop_inOrder (hs.begun rest hn hle) (.begun hn hle)).1
  · rw [hrun]
    exact .start hs.idle

/-- The offer of the whole packet is one of a part of it, since it is not empty. -/
theorem InOrder.of_offering (hs : Sendable h)
    (hg : InOrder (offering h 0 h.packet.data.length) g) : InOrder h g where
  data_eq := hg.data_eq
  sendPos := hg.sendPos
  accepted_eq := hg.accepted_eq
  offered_eq := by
    obtain ⟨ranges, hranges, hparts⟩ := hg.offered_eq
    have hsome : 0 < h.packet.data.length := by
      have hfull := hs.nonempty
      rw [← Bool.not_eq_true, Packet.empty_iff] at hfull
      omega
    refine ⟨(0, (h.packet.data.length : Int)) :: ranges, ?_, ?_⟩
    · rw [hranges]
      exact List.append_assoc ..
    · intro range hrange
      rcases List.mem_cons.mp hrange with rfl | hlater
      · exact partOf_rest hsome
      · exact hparts range hlater
  protocol_eq := hg.protocol_eq

theorem rounds_inOrder (hs : Sendable h) : InOrder h (finalState (rounds.run h)) :=
  .of_offering hs (rounds_after_offer hs)

/-- What holds of the end of every call holds at every moment of it. -/
theorem InOrder.of_moment (hs : Sendable h) (hg : Moment h g) : InOrder h g := by
  obtain ⟨k, rfl⟩ := hg
  have hcut := rounds_inOrder (h := cutAfter h k) ⟨hs.stream, hs.nonempty, hs.idle, hs.length_le⟩
  exact ⟨hcut.data_eq, hcut.sendPos, hcut.accepted_eq, hcut.offered_eq, hcut.protocol_eq⟩

end Rounds

/-! ## Order -/

/-- A call sends in order: the send position is -1 when it starts and when it ends, and at every
moment in between it tells how much of the packet has been accepted. -/
structure SendsInOrder (h : Host) : Prop where
  enters : h.packet.sendPos = -1
  leaves : ∀ state h', send.run h = .ok state h' → h'.packet.sendPos = -1
  /-- The only other end is a native call that does not return. -/
  returns : ∀ e h', send.run h = .error e h' → e = .pending
  empty : h.packet.empty = true → (finalState (send.run h)).net = h.net
  moments : h.packet.empty = false →
    send.run h = resetSent (rounds.run h) ∧ ∀ g, Moment h g → InOrder h g

/-- **The order of a send.** A call with a packet from the public interface sends in order,
whatever the native calls return and whenever it is looked at. -/
theorem send_inOrder {h : Host} (htcp : h.socket.protocol = .tcp)
    (hp : Packet.Reachable h.packet) : SendsInOrder h := by
  have hidle := (Packet.reachable_sound hp).sendPos
  have hstream := ne_udp_of_tcp htcp
  have heffect := (send_effect hidle).run h rfl
  refine ⟨hidle, ?_, ?_, ?_, ?_⟩
  · intro state h' hrun
    have hrun' : send h = .ok state h' := hrun
    rw [hrun'] at heffect
    exact heffect ▸ hidle
  · intro e h' hrun
    have hrun' : send h = .error e h' := hrun
    rw [hrun'] at heffect
    exact heffect.1
  · intro hempty
    rw [send_empty hempty]
    rfl
  · intro hfull
    have hs := Sendable.of_reachable hstream hfull hp
    exact ⟨send_rounds hs, fun g hg => .of_moment hs hg⟩

/-- Two bytes are accepted, then the call has to wait, then the last byte is accepted. -/
theorem send_inOrder_waits :
    SendsInOrder (sendingByte .tcp [.count 2, .failure .wouldBlock, .count 1]) :=
  send_inOrder rfl (reachable_sendingByte _ _)

/-! ## Interrupted calls -/

/-- With `remaining` bytes to send and a last error, the loop returns another state than
`done`.  A native send that succeeds leaves the last error as it was. -/
def GivesUp : List NativeResult → (remaining : ℕ) → (e : SocketError) → Prop
  | [], _, _ => False
  | .count n :: rest, remaining, e =>
    n ≤ remaining ∧ (toState e = .closed ∨ toState e = .error ∨
      (toState e = .inProgress ∧ (n = remaining ∨ GivesUp rest (remaining - n) e)))
  | .failure e' :: rest, remaining, _ =>
    e' ≠ .none ∧ (toState e' = .closed ∨ toState e' = .error ∨
      (toState e' = .inProgress ∧ GivesUp rest remaining e'))

/-- The native results on which a call with a packet of `size` bytes is interrupted: the first
native send accepts a part of the packet, and the loop gives up on the rest. -/
def Interrupted (size : ℕ) (e : SocketError) : List NativeResult → Prop
  | .count n :: rest => 0 < n ∧ n < size ∧ GivesUp rest (size - n) e
  | _ => False

section Interrupted

variable {h g : Host} {rest : List NativeResult} {s fuel : ℕ} {result : SocketState}

/-- A program that returns a state other than `done`. -/
def Fails (r : EStateM.Result Fault Host SocketState) : Prop :=
  ∃ state g, r = .ok state g ∧ state ≠ .done

theorem fails_ok {state : SocketState} : Fails (.ok state g) ↔ state ≠ .done := by
  constructor
  · rintro ⟨state', g', hrun, hstate⟩
    cases hrun
    exact hstate
  · exact fun hstate => ⟨state, g, rfl, hstate⟩

theorem not_fails_error {e : Fault} : ¬Fails (.error e g) := by
  rintro ⟨state, g', hrun, -⟩
  cases hrun

theorem not_givesUp_of_pending {results : List NativeResult} {remaining : ℕ} {e : SocketError}
    (hpending : ¬Answers remaining results) : ¬GivesUp results remaining e := by
  cases results with
  | nil => exact id
  | cons r rest =>
    cases r with
    | count n => exact fun hgives => hpending hgives.1
    | failure e' => exact fun hgives => hpending hgives.1

/-- **The loop gives up** on exactly these results. -/
theorem sendLoop_givesUp_iff (hs : Sending g s) (hleft : s < g.packet.data.length)
    (hfuel : g.net.results.length < fuel) :
    Fails ((sendLoop fuel result).run g) ↔
      GivesUp g.net.results (g.packet.data.length - s) g.net.lastError := by
  induction fuel generalizing g s result with
  | zero => omega
  | succ fuel ih =>
    rcases answers_cases (g.packet.data.length - s) g.net.results with
      ⟨n, rest, hres, hn⟩ | ⟨e, rest, hres, he⟩ | hpending
    · rw [sendLoop_count hs hleft hres hn, hres]
      rw [hres, List.length_cons] at hfuel
      simp only [GivesUp, hn, true_and]
      cases hstate : toState g.net.lastError with
      | done | closed | error =>
        rw [continueSend, if_neg (by decide), EStateM.run_pure, fails_ok]
        simp
      | inProgress =>
        rw [continueSend, if_pos rfl]
        simp only [reduceCtorEq, false_or, true_and]
        rcases Nat.lt_or_ge (s + n) g.packet.data.length with hmore | hall
        · -- the loop goes on with the bytes that are left
          have hstep : Fails ((sendLoop fuel .inProgress).run (advanced g rest s n)) ↔ _ :=
            ih (hs.advanced rest hn) hmore (show rest.length < fuel by omega)
          have hless : ¬n = g.packet.data.length - s := by omega
          rw [hstep, or_iff_right hless, ← Nat.sub_sub]
          rfl
        · -- the last byte was accepted, and the next round returns the stale state
          have hlast : n = g.packet.data.length - s := by omega
          obtain ⟨fuel, rfl⟩ := Nat.exists_eq_succ_of_ne_zero (show fuel ≠ 0 by omega)
          rw [hlast, sendLoop_last hs, fails_ok]
          simp
    · rw [sendLoop_failure hs hleft hres he, hres]
      rw [hres, List.length_cons] at hfuel
      simp only [GivesUp, ne_eq, he, not_false_eq_true, true_and]
      cases hstate : toState e with
      | done | closed | error =>
        rw [continueSend, if_neg (by decide), EStateM.run_pure, fails_ok]
        simp
      | inProgress =>
        rw [continueSend, if_pos rfl]
        simp only [reduceCtorEq, false_or, true_and]
        exact ih hs.stalled hleft (show rest.length < fuel by omega)
    · obtain ⟨g', hrange⟩ := sendLoop_pending fuel result hs hleft hpending
      rw [hrange]
      exact iff_of_false not_fails_error (not_givesUp_of_pending hpending)

theorem fails_resetSent (r : EStateM.Result Fault Host SocketState) :
    Fails (resetSent r) ↔ Fails r := by
  cases r with
  | ok state g => rw [resetSent, fails_ok, fails_ok]
  | error e g => exact iff_of_false not_fails_error not_fails_error

/-- **A call is interrupted** on exactly these results. -/
theorem interrupted_iff (hs : Sendable h) :
    Fails (send.run h) ↔ Interrupted h.packet.data.length h.net.lastError h.net.results := by
  rw [send_rounds hs, fails_resetSent]
  rcases rounds_cases hs with
    ⟨hnone, g, hrun, -⟩ | ⟨n, rest, hres, ⟨hn, hle⟩, hrun⟩ | ⟨hpending, hrun⟩
  · -- a first native send that accepts nothing ends the call
    rw [hrun, fails_ok]
    refine iff_of_false (not_not_intro rfl) ?_
    cases hres : h.net.results with
    | nil => exact id
    | cons r rest =>
      cases r with
      | count n =>
        obtain rfl := hnone n rest hres
        exact fun hinterrupted => Nat.lt_irrefl 0 hinterrupted.1
      | failure e => exact id
  · have hbegun := hs.begun rest hn hle
    rw [hrun, hres]
    rcases Nat.lt_or_eq_of_le hle with hleft | rfl
    · rw [sendLoop_givesUp_iff hbegun hleft (Nat.lt_succ_self rest.length)]
      simp only [Interrupted, hn, hleft, true_and]
      rfl
    · rw [sendLoop_finished hbegun, fails_ok]
      exact iff_of_false (not_not_intro rfl) fun hinterrupted => Nat.lt_irrefl _ hinterrupted.2.1
  · rw [hrun]
    refine iff_of_false not_fails_error ?_
    cases hres : h.net.results with
    | nil => exact id
    | cons r rest =>
      cases r with
      | count n =>
        rw [hres] at hpending
        exact fun hinterrupted => hpending hinterrupted.2.1.le
      | failure e => exact id

/-! ## Retries -/

/-- The call in `h` is interrupted, and its caller makes another one with the same packet.  The
other call finds the last error and the native results `next`. -/
def Retry (h : Host) (next : SocketError × List NativeResult) (h' : Host) : Prop :=
  ∃ state g, send.run h = .ok state g ∧ state ≠ .done ∧
    h' = { g with net := { g.net with lastError := next.1, results := next.2 } }

/-- The call in `g`, the first or a later one since `h`, goes on where the calls before it
stopped. -/
structure GoesOn (h g : Host) : Prop where
  /-- The first byte that it offers is the first one that was not accepted. -/
  offers : ∀ range more, (finalState (send.run g)).net.offered = g.net.offered ++ range :: more →
    (h.net.accepted.length : Int) + range.1 = g.net.accepted.length
  /-- What has been accepted in all is the start of the packet. -/
  accepts : ∃ k, (finalState (send.run g)).net.accepted =
    h.net.accepted ++ h.packet.data.take k

/-- However often the caller tries again, every call goes on where the ones before stopped. -/
def Resumes (h : Host) : Prop :=
  ∀ labels g, Reaches Retry h labels g → GoesOn h g

theorem finalState_resetSent (r : EStateM.Result Fault Host SocketState) :
    (finalState (resetSent r)).net = (finalState r).net := by
  cases r <;> rfl

/-- A call offers the whole packet first. -/
theorem send_offers (hs : Sendable h) :
    ∃ more, (finalState (send.run h)).net.offered =
      h.net.offered ++ (0, (h.packet.data.length : Int)) :: more := by
  obtain ⟨ranges, hranges, -⟩ := (rounds_after_offer hs).offered_eq
  rw [send_rounds hs, finalState_resetSent]
  exact ⟨ranges, hranges.trans (List.append_assoc ..)⟩

/-- A single call goes on from the start. -/
theorem goesOn_first (hs : Sendable h) : GoesOn h h where
  offers range more hoffered := by
    obtain ⟨more', hfirst⟩ := send_offers hs
    rw [hfirst] at hoffered
    have hrange := List.head_eq_of_cons_eq (List.append_cancel_left hoffered)
    rw [← hrange, Int.add_zero]
  accepts := by
    rw [send_rounds hs, finalState_resetSent]
    exact ⟨_, (rounds_inOrder hs).accepted_eq⟩

/-- A call that was interrupted has sent a byte. -/
theorem accepted_of_interrupted (hs : Sendable h) {state : SocketState} (hstate : state ≠ .done)
    (hrun : send.run h = .ok state g) : h.net.accepted.length < g.net.accepted.length := by
  have hnet : g.net = (finalState (rounds.run h)).net := by
    rw [← finalState_resetSent, ← send_rounds hs, hrun]
    rfl
  have horder := rounds_inOrder hs
  have hsome : 0 < (finalState (rounds.run h)).packet.sendPos := by
    rcases rounds_cases hs with ⟨-, g', hrun', -⟩ | ⟨n, rest, hres, ⟨hn, hle⟩, hrun'⟩ | ⟨-, hrun'⟩
    · rw [send_rounds hs, hrun'] at hrun
      cases hrun
      exact absurd rfl hstate
    · rw [hrun']
      exact (sendLoop_inOrder (hs.begun rest hn hle) (.begun hn hle)).2
    · rw [send_rounds hs, hrun'] at hrun
      cases hrun
  have hsent := horder.accepted_eq
  have hle := horder.sendPos
  rw [hnet, hsent, List.length_append, List.length_take, progress, if_neg (by omega)]
  omega

/-- The packet and its socket are ready for another call. -/
theorem Sendable.retry (hs : Sendable h) {next : SocketError × List NativeResult} {h' : Host}
    (hretry : Retry h next h') : Sendable h' := by
  obtain ⟨state, g, hrun, -, rfl⟩ := hretry
  have hrounds := hrun
  rw [send_rounds hs] at hrounds
  obtain ⟨g', hrun', -, hsocket⟩ := resetSent_ok hrounds
  have heffect := (send_effect hs.idle).run h rfl
  have hsend : send h = .ok state g := hrun
  rw [hsend] at heffect
  have hpacket : g.packet = h.packet := heffect
  have horder := rounds_inOrder hs
  rw [hrun'] at horder
  have hprotocol : g.socket.protocol = h.socket.protocol := by
    rw [hsocket]
    exact horder.protocol_eq
  refine ⟨?_, ?_, ?_, ?_⟩
  · exact hprotocol ▸ hs.stream
  · exact hpacket ▸ hs.nonempty
  · exact hpacket ▸ hs.idle
  · exact hpacket ▸ hs.length_le

/-- The call after an interrupted one starts again. -/
theorem not_resumes_of_fails (hs : Sendable h) (hfails : Fails (send.run h)) : ¬Resumes h := by
  obtain ⟨state, g, hrun, hstate⟩ := hfails
  intro hresumes
  have hretry : Retry h (.none, [])
      { g with net := { g.net with lastError := .none, results := [] } } :=
    ⟨state, g, hrun, hstate, rfl⟩
  -- it offers the packet from its first byte on, which has been sent before
  obtain ⟨more, hoffers⟩ := send_offers (hs.retry hretry)
  have hagain := (hresumes _ _ ((Reaches.nil h).snoc hretry)).offers _ _ hoffers
  have hsent := accepted_of_interrupted hs hstate hrun
  have hsame : (h.net.accepted.length : Int) + 0 = g.net.accepted.length := hagain
  omega

/-- **Retries.** Exactly when the first call is not interrupted, all calls go on where the ones
before stopped; otherwise the next one starts again. -/
theorem resumes_iff (htcp : h.socket.protocol = .tcp) (hp : Packet.Reachable h.packet)
    (hfull : h.packet.empty = false) :
    Resumes h ↔ ¬Interrupted h.packet.data.length h.net.lastError h.net.results := by
  have hs := Sendable.of_reachable (ne_udp_of_tcp htcp) hfull hp
  rw [← interrupted_iff hs]
  constructor
  · exact fun hresumes hfails => not_resumes_of_fails hs hfails hresumes
  · -- without an interruption there is no retry
    intro hnot labels g hreaches
    have honly : g = h := by
      refine hreaches.trace (P := fun _ g => g = h) rfl fun _ t next t' ht hretry => ?_
      obtain ⟨state, g', hrun, hstate, -⟩ := hretry
      rw [ht] at hrun
      exact absurd ⟨state, g', hrun, hstate⟩ hnot
    rw [honly]
    exact goesOn_first hs

end Interrupted

/-- Everything is accepted at once, and there is nothing to resume. -/
theorem resumes_iff_whole :
    Resumes (sendingByte .tcp [.count 3]) ↔ ¬Interrupted 3 .none [.count 3] :=
  resumes_iff rfl (reachable_sendingByte _ _) rfl

/-- Two of three bytes are accepted before the connection is reset; the next call offers all
three. -/
theorem not_resumes_reset :
    (∃ g, send.run (sendingByte .tcp [.count 2, .failure .connectionReset]) = .ok .closed g ∧
      g.net.accepted = [1, 0]) ∧
      ¬Resumes (sendingByte .tcp [.count 2, .failure .connectionReset]) := by
  have hs : Sendable (sendingByte .tcp [.count 2, .failure .connectionReset]) :=
    .of_reachable (by decide) rfl (reachable_sendingByte _ _)
  exact ⟨⟨_, rfl, rfl⟩, not_resumes_of_fails hs ⟨.closed, _, rfl, by decide⟩⟩

end Sws.Socket
