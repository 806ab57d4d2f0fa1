import Sws.Socket.Receiver
import Sws.Socket.Spec

/-!
# Frames from a Stream

A program that calls `receive` on one packet again and again, and takes the packet's payload
each time a frame is complete, does what a `Receiver` does: native result by native result.
It obtains the frames of a stream exactly if every header and every payload comes whole.

## Key Results

- `serves`: one native result, or the end.
- `receiveAgain_settles`: all calls.
- `reassembles_iff`: the streams whose frames the program obtains.
-/

namespace Sws.Socket

open Sws.Foundation
open Packet (frame)

/-! ## The program -/

/-- The payload of a frame that is complete: none is pending, and the packet holds something. -/
def completed (p : Packet) : List (List UInt8) :=
  if p.recvTarget < 0 ∧ p.empty = false then [p.data.drop 2] else []

/-- The payloads obtained by a number of calls on the same packet.  An exception is caught, and
the packet received into again; a call that stays pending is the last. -/
def receiveAgain : (calls : ℕ) → Host → List (List UInt8)
  | 0, _ => []
  | calls + 1, h =>
    match receive.run h with
    | .ok _ h' => completed h'.packet ++ receiveAgain calls h'
    | .error (.thrown _) h' => receiveAgain calls h'
    | .error _ _ => []

/-- From some number of calls on, the program has obtained exactly these payloads. -/
def Reassembles (h : Host) (frames : List (List UInt8)) : Prop :=
  ∃ n, ∀ calls, n ≤ calls → receiveAgain calls h = frames

section ReceiveAgain

variable {h h' : Host}

theorem receiveAgain_ok {state : SocketState} (hrun : receive.run h = .ok state h') (calls : ℕ) :
    receiveAgain (calls + 1) h = completed h'.packet ++ receiveAgain calls h' := by
  simp only [receiveAgain, hrun]

/-- Only the first call looks at where it starts. -/
theorem receiveAgain_congr (hrun : receive.run h = receive.run h') (calls : ℕ) :
    receiveAgain (calls + 1) h = receiveAgain (calls + 1) h' := by
  simp only [receiveAgain, hrun]

end ReceiveAgain

/-! ## The packet of a receiver -/

/-- A payload of `t` bytes is awaited.  If the buffer can hold it at all, it takes it. -/
structure Resumable (p : Packet) (t : ℕ) : Prop where
  recvTarget : p.recvTarget = t
  announced : 0 < t ∧ t ≤ 65535
  inLimits : p.InLimits
  fits : t + 2 < datagramSize → Fits p t

/-- The packet that belongs to what a receiver awaits. -/
def Holds (p : Packet) : Option ℕ → Prop
  | none => Idle p
  | some t => Resumable p t

/-- The host of a receiver. -/
structure Matches (r : Receiver) (h : Host) : Prop where
  protocol : h.socket.protocol ≠ .udp
  stream : h.net.inbound = r.stream
  packet : Holds h.packet r.awaited

section Packets

variable {p : Packet} {t : ℕ} {bytes : List UInt8}

theorem completed_cleared (p : Packet) : completed p.cleared = [] := by
  have hempty : p.cleared.empty = true := p.cleared.empty_iff.mpr (Nat.le_refl 2)
  simp [completed, hempty]

theorem completed_resumable (hp : Resumable p t) : completed p = [] := by
  have hnot : ¬p.recvTarget < 0 := by
    rw [hp.recvTarget]
    exact not_lt.mpr (Int.natCast_nonneg t)
  rw [completed, if_neg fun h => hnot h.1]

/-- A header in one piece, for a payload of any size. -/
theorem resumable_announced (hlen : bytes.length = 2) (hsize : 0 < ofBytes bytes) :
    Resumable (announced p bytes) (ofBytes bytes) := by
  have hlt := ofBytes_lt bytes
  rw [hlen] at hlt
  rw [announced, if_pos ⟨hlen, hsize⟩]
  refine ⟨rfl, ⟨hsize, by omega⟩, Packet.inLimits_cleared p, fun hroom => ⟨hroom, ?_⟩⟩
  show (2 : Int) ≤ 2 ∧ (2 : Int) ≤ ofBytes bytes + 2
  omega

theorem resumable_framed (hp : Resumable p t) (hfits : Fits p t) : Resumable (framed p t) t where
  recvTarget := hp.recvTarget
  announced := hp.announced
  inLimits := ⟨by rw [length_framed hfits]; exact Nat.le_of_lt hfits.1, hp.inLimits.2⟩
  fits _ := hfits

/-- A payload that came in part. -/
theorem resumable_received (hp : Resumable p t) (hfits : Fits p t) (hlen : bytes.length < t) :
    Resumable (received p t bytes) t where
  recvTarget := if_neg (Nat.ne_of_lt hlen)
  announced := hp.announced
  inLimits := by
    refine ⟨?_, hp.inLimits.2⟩
    rw [length_received hfits (Nat.le_of_lt hlen)]
    exact Nat.le_of_lt hfits.1
  fits _ := hfits

/-- A payload that came whole ends the frame. -/
theorem idle_received (hlen : bytes.length = t) : Idle (received p t bytes) := by
  simp only [Idle, received, if_pos hlen]
  decide

/-- **A whole payload** is what the packet then holds. -/
theorem completed_received (hp : Resumable p t) (hfits : Fits p t) (hlen : bytes.length = t) :
    completed (received p t bytes) = [bytes] := by
  have hpos := hp.announced.1
  have hsize := length_received hfits (Nat.le_of_eq hlen)
  -- the payload is not empty
  have hfull : (received p t bytes).empty = false := by
    rw [← Bool.not_eq_true, Packet.empty_iff]
    omega
  have hframed := length_framed hfits
  have hpayload : (received p t bytes).data.drop 2 = bytes := by
    -- what lies behind the header is the segment that was received
    have hread : ((received p t bytes).data.drop 2).take bytes.length = bytes :=
      take_drop_splice _ _ (by omega)
    have hall : ((received p t bytes).data.drop 2).length ≤ bytes.length := by
      rw [List.length_drop]
      omega
    rwa [List.take_of_length_le hall] at hread
  rw [completed, if_pos ⟨(idle_received hlen).2, hfull⟩, hpayload]

end Packets

/-! ## One native result -/

/-- What a call does with the first native result: it goes on, it returns, or it does not use
the result at all. -/
inductive Serves (r : Receiver) (h : Host) : Prop
  | resumes {res : NativeResult} {r' : Receiver} {h' : Host}
      (hrun : receive.run h = receive.run h') (hresults : h.net.results = res :: h'.net.results)
      (hstep : Receiver.Step r res r') (htaken : r'.taken = r.taken) (hmatches : Matches r' h')
  | returns {res : NativeResult} {r' : Receiver} {h' : Host} {state : SocketState}
      (hrun : receive.run h = .ok state h') (hresults : h.net.results = res :: h'.net.results)
      (hstep : Receiver.Step r res r') (htaken : r'.taken = r.taken ++ completed h'.packet)
      (hmatches : Matches r' h')
  | fails {h' : Host} {e : Fault} (hrun : receive.run h = .error e h')
      (hresults : h'.net.results = h.net.results) (hstuck : r.Stuck h.net.results)
      (hmatches : Matches r h')

section Serves

variable {r : Receiver} {h : Host} {t : ℕ}

/-- The stream before and after a native receive. -/
theorem Matches.stream_eq (hm : Matches r h) (n : ℕ) :
    r.stream = h.net.inbound.take n ++ h.net.inbound.drop n := by
  rw [List.take_append_drop, hm.stream]

/-- A receiver is stuck where its host gets no answer. -/
theorem Matches.stuck (hm : Matches r h)
    (hpending : ¬Answers (min r.request h.net.inbound.length) h.net.results) :
    r.Stuck h.net.results := by
  intro res rest r' hres hstep
  apply hpending
  rw [hres, hm.stream]
  cases res with
  | count n => exact hstep.count_le
  | failure e => exact hstep.error

theorem Matches.resumable (hm : Matches r h) (hawaited : r.awaited = some t) :
    Resumable h.packet t := by
  have hholds := hm.packet
  rwa [hawaited] at hholds

/-- Nothing is obtained by a call that leaves no frame complete. -/
theorem taken_of_completed {taken : List (List UInt8)} {p : Packet} (h : completed p = []) :
    taken = taken ++ completed p := by
  rw [h, List.append_nil]

/-- A payload that the buffer takes. -/
theorem serves_payload (hm : Matches r h) (hawaited : r.awaited = some t)
    (hfits : Fits h.packet t) : Serves r h := by
  have hp := hm.resumable hawaited
  have ht := hp.recvTarget
  have hpos := hp.announced.1
  have hbody := receive_resuming hm.protocol (show 0 < h.packet.recvTarget by omega)
  have hroom : r.HasRoom := by
    intro t' ht'
    rw [hawaited, Option.mem_some_iff] at ht'
    rw [← ht']
    exact hfits.1
  -- the frame goes on unless the payload came whole
  have hholds : ∀ {p : Packet}, Resumable p t → Holds p r.awaited := by
    intro p hp
    rwa [hawaited]
  rcases answers_cases (min t h.net.inbound.length) h.net.results with
    ⟨n, rest, hres, hn⟩ | ⟨e, rest, hres, he⟩ | hpending
  · have hrun := hbody.trans ((receiveBody_count ht hfits hres hn).trans (getErrorState_run _))
    have hstream := hm.stream_eq n
    have hlen : (h.net.inbound.take n).length = n := by rw [List.length_take]; omega
    rcases Nat.lt_or_ge n t with hshort | hwhole
    · -- a part is put where the next one will be put, too
      have hstep := Receiver.Step.partialPayload hawaited hfits.1 hstream (by omega)
      have hresumable := resumable_received hp hfits (hlen ▸ hshort)
      rw [hlen] at hstep
      exact .returns hrun hres hstep (taken_of_completed (completed_resumable hresumable))
        ⟨hm.protocol, rfl, hholds hresumable⟩
    · have hall : (h.net.inbound.take n).length = t := by omega
      have hstep := Receiver.Step.payload (hawaited.trans (congrArg some hall.symm))
        (by rw [hall]; exact hfits.1) hstream
      rw [hlen] at hstep
      refine .returns hrun hres hstep ?_ ⟨hm.protocol, rfl, idle_received hall⟩
      exact congrArg (r.taken ++ ·) (completed_received hp hfits hall).symm
  · have hrun := hbody.trans
      ((receiveBody_failure ht hfits hpos hres he).trans (getErrorState_run _))
    have hresumable := resumable_framed hp hfits
    exact .returns hrun hres (.failure hroom he)
      (taken_of_completed (completed_resumable hresumable))
      ⟨hm.protocol, hm.stream, hholds hresumable⟩
  · refine .fails (hbody.trans (receiveBody_pending ht hfits hpending)) rfl (hm.stuck ?_)
      ⟨hm.protocol, hm.stream, hholds (resumable_framed hp hfits)⟩
    rwa [Receiver.request, hawaited]

/-- A payload too large for the buffer: the resize throws, and nothing is received. -/
theorem serves_tooLarge (hm : Matches r h) (hawaited : r.awaited = some t)
    (hroom : ¬t + 2 < datagramSize) : Serves r h := by
  have hp := hm.resumable hawaited
  have ht := hp.recvTarget
  have hpos := hp.announced.1
  obtain ⟨e, q, hrun, -, hrebuilt⟩ :=
    receiveBody_throws ht hp.announced.2 hp.inLimits fun hfits => hroom hfits.1
  have hbody := receive_resuming hm.protocol (show 0 < h.packet.recvTarget by omega)
  refine .fails (hbody.trans hrun) rfl ?_ ⟨hm.protocol, hm.stream, ?_⟩
  · intro res rest r' hres hstep
    exact hroom (hstep.hasRoom t hawaited)
  · -- the size is still announced, so that the next call fares no better
    have hlimits : q.InLimits := by
      refine ⟨?_, hrebuilt.writePos⟩
      rw [hrebuilt.length_eq]
      exact (Packet.clampSize_mem _).2
    rw [hawaited]
    exact ⟨hrebuilt.recvTarget.trans ht, hp.announced, hlimits, fun h => absurd h hroom⟩

/-- Between two frames. -/
theorem serves_header (hm : Matches r h) (hawaited : r.awaited = none) : Serves r h := by
  have hidle : Idle h.packet := by
    have hholds := hm.packet
    rwa [hawaited] at hholds
  have hcleared : Holds h.packet.cleared r.awaited := by
    rw [hawaited]
    exact hidle
  rcases answers_cases (min 2 h.net.inbound.length) h.net.results with
    ⟨n, rest, hres, hn⟩ | ⟨e, rest, hres, he⟩ | hpending
  · have hheader := receiveHeader_count hidle hres hn
    have hstream := hm.stream_eq n
    have hlen : (h.net.inbound.take n).length = n := by rw [List.length_take]; omega
    rcases Classical.em ((h.net.inbound.take n).length = 2 ∧ 0 < ofBytes (h.net.inbound.take n))
      with hsize | hsize
    · -- the call goes on with the payload, as a call does that finds it announced
      have hresumable := resumable_announced (p := h.packet) hsize.1 hsize.2
      have hpos : 0 < (afterHeader h rest n).packet.recvTarget := by
        have ht : (afterHeader h rest n).packet.recvTarget = _ := hresumable.recvTarget
        omega
      have hresumed := receive_resuming (h := afterHeader h rest n) hm.protocol hpos
      have hstep := Receiver.Step.header hawaited hstream hsize.1 hsize.2
      rw [hlen] at hstep
      exact .resumes ((receive_announced hm.protocol hheader hpos).trans hresumed.symm) hres hstep
        rfl ⟨hm.protocol, rfl, hresumable⟩
    · rw [afterHeader, announced, if_neg hsize] at hheader
      -- what was read of the header is nowhere kept
      have hrun := receive_unannounced hm.protocol hheader (Int.le_of_lt hidle.2)
      have hstep := Receiver.Step.noHeader hawaited hstream (by omega) hsize
      rw [hlen] at hstep
      exact .returns (hrun.trans (getErrorState_run _)) hres hstep
        (taken_of_completed (completed_cleared h.packet)) ⟨hm.protocol, rfl, hcleared⟩
  · have hrun := receive_unannounced hm.protocol (receiveHeader_failure hidle hres he)
      (Int.le_of_lt hidle.2)
    exact .returns (hrun.trans (getErrorState_run _)) hres
      (.failure (by simp [Receiver.HasRoom, hawaited]) he)
      (taken_of_completed (completed_cleared h.packet)) ⟨hm.protocol, hm.stream, hcleared⟩
  · refine .fails (receive_of_error hm.protocol (receiveHeader_pending hidle hpending)) rfl
      (hm.stuck ?_) ⟨hm.protocol, hm.stream, hcleared⟩
    rwa [Receiver.request, hawaited]

/-- **One native result.** A call serves the receiver it matches. -/
theorem serves (hm : Matches r h) : Serves r h := by
  cases hawaited : r.awaited with
  | none => exact serves_header hm hawaited
  | some t =>
    rcases Classical.em (t + 2 < datagramSize) with hroom | hroom
    · exact serves_payload hm hawaited ((hm.resumable hawaited).fits hroom)
    · exact serves_tooLarge hm hawaited hroom

end Serves

/-! ## All calls -/

section Calls

variable {r : Receiver} {h : Host}

/-- A receiver that is stuck obtains nothing more. -/
theorem receiveAgain_stuck (hm : Matches r h) (hstuck : r.Stuck h.net.results) (calls : ℕ) :
    receiveAgain calls h = [] := by
  induction calls generalizing h with
  | zero => rfl
  | succ calls ih =>
    rcases serves hm with ⟨-, hres, hstep, -, -⟩ | ⟨-, hres, hstep, -, -⟩ |
      ⟨hrun, hresults, -, hm'⟩
    · exact absurd hstep (hstuck _ _ _ hres)
    · exact absurd hstep (hstuck _ _ _ hres)
    · rename_i h' e
      -- after an exception the next call finds what this one found
      have hrest := ih hm' (by rwa [hresults])
      simp only [receiveAgain, hrun]
      cases e with
      | thrown _ => exact hrest
      | undefined _ => rfl
      | pending => rfl

/-- The program comes to an end as the receiver does: what it has obtained after enough calls is
what the receiver has taken when it can go no further. -/
def Settles (r : Receiver) (h : Host) : Prop :=
  ∃ used rest r', h.net.results = used ++ rest ∧ Reaches Receiver.Step r used r' ∧
    r'.Stuck rest ∧ ∃ n, ∀ calls, n ≤ calls → r.taken ++ receiveAgain calls h = r'.taken

theorem settles_stuck (hm : Matches r h) (hstuck : r.Stuck h.net.results) : Settles r h := by
  refine ⟨[], h.net.results, r, rfl, .nil r, hstuck, 0, fun calls _ => ?_⟩
  rw [receiveAgain_stuck hm hstuck, List.append_nil]

/-- One native result more; the call it belongs to ends with it (`k = 0`) or goes on. -/
theorem Settles.step {res : NativeResult} {r' : Receiver} {h' : Host} {k : ℕ}
    (hs : Settles r' h') (hresults : h.net.results = res :: h'.net.results)
    (hstep : Receiver.Step r res r') (hobtained : ∀ calls,
      r.taken ++ receiveAgain (calls + 1) h = r'.taken ++ receiveAgain (calls + k) h') :
    Settles r h := by
  obtain ⟨used, rest, r'', hsplit, hreaches, hstuck, n, hn⟩ := hs
  -- one call more than those after it are enough
  refine ⟨res :: used, rest, r'', ?_, hreaches.cons hstep, hstuck, n + 1, fun calls hcalls => ?_⟩
  · rw [hresults, hsplit, List.cons_append]
  · obtain ⟨calls, rfl⟩ := Nat.exists_eq_succ_of_ne_zero (show calls ≠ 0 by omega)
    rw [Nat.succ_eq_add_one, hobtained]
    exact hn _ (by omega)

/-- **All calls.** A program that starts where a receiver does comes to the same end. -/
theorem receiveAgain_settles (hm : Matches r h) : Settles r h := by
  induction hresults : h.net.results generalizing r h with
  | nil =>
    apply settles_stuck hm
    intro res rest r' hres
    rw [hresults] at hres
    cases hres
  | cons res results ih =>
    rcases serves hm with ⟨hrun, hres, hstep, htaken, hm'⟩ | ⟨hrun, hres, hstep, htaken, hm'⟩ |
      ⟨-, -, hstuck, -⟩
    · -- the same call goes on
      obtain ⟨rfl, hrest⟩ := List.cons_eq_cons.mp (hresults.symm.trans hres)
      refine (ih hm' hrest.symm).step (k := 1) hres hstep fun calls => ?_
      rw [receiveAgain_congr hrun, htaken]
    · obtain ⟨rfl, hrest⟩ := List.cons_eq_cons.mp (hresults.symm.trans hres)
      refine (ih hm' hrest.symm).step (k := 0) hres hstep fun calls => ?_
      rw [receiveAgain_ok hrun, htaken, List.append_assoc, Nat.add_zero]
    · exact settles_stuck hm hstuck

/-- A host between two frames of a stream. -/
theorem matches_start (htcp : h.socket.protocol = .tcp) (hidle : Idle h.packet) :
    Matches (Receiver.start h.net.inbound) h :=
  ⟨ne_udp_of_tcp htcp, rfl, hidle⟩

section Stream

variable {frames : List (List UInt8)}

/-- A program that obtains all frames was given whole pieces. -/
theorem pieces_of_reassembles (htcp : h.socket.protocol = .tcp) (hidle : Idle h.packet)
    (hstream : h.net.inbound = frames.flatMap frame)
    (hdelivers : ∀ res ∈ h.net.results, Delivers res) (hall : Reassembles h frames) :
    pieces frames <+: cuts h.net.results := by
  obtain ⟨used, rest, r, hresults, hreaches, -, n, hn⟩ :=
    receiveAgain_settles (matches_start htcp hidle)
  obtain ⟨m, hm⟩ := hall
  -- after enough calls the receiver has taken what the program obtained
  have htaken : r.taken = frames :=
    (hn (max n m) (Nat.le_max_left ..)).symm.trans (hm _ (Nat.le_max_right ..))
  rw [hresults] at hdelivers
  rw [hstream] at hreaches
  have hcuts := Receiver.pieces_of_taken hreaches
    (fun res hres => hdelivers res (List.mem_append_left _ hres)) htaken
  rw [hresults, cuts_append, hcuts]
  exact List.prefix_append ..

/-- A program that is given whole pieces obtains all frames. -/
theorem reassembles_of_pieces (htcp : h.socket.protocol = .tcp) (hidle : Idle h.packet)
    (hsizes : ∀ f ∈ frames, 1 ≤ f.length ∧ f.length ≤ 65533)
    (hstream : h.net.inbound = frames.flatMap frame)
    (hdelivers : ∀ res ∈ h.net.results, Delivers res)
    (hcuts : pieces frames <+: cuts h.net.results) : Reassembles h frames := by
  obtain ⟨used, rest, r, hresults, hreaches, hstuck, n, hn⟩ :=
    receiveAgain_settles (matches_start htcp hidle)
  rw [hresults] at hdelivers hcuts
  rw [hstream] at hreaches
  have haligned := (Receiver.Aligned.start hcuts).reaches hsizes hdelivers hreaches
  have htaken := haligned.finished hsizes
    (fun res hres => hdelivers res (List.mem_append_right _ hres)) hstuck
  exact ⟨n, fun calls hcalls => (hn calls hcalls).trans htaken⟩

/-- **Reassembly.** A program that receives into one packet again and again obtains the frames
of a stream exactly if the counts of `::recv` are the size of each header and of each payload:
whatever comes in parts is lost. -/
theorem reassembles_iff (htcp : h.socket.protocol = .tcp)
    (hidle : h.packet.recvPos < 0 ∧ h.packet.recvTarget < 0)
    (hsizes : ∀ f ∈ frames, 1 ≤ f.length ∧ f.length ≤ 65533)
    (hstream : h.net.inbound = frames.flatMap frame)
    (hdelivers : ∀ res ∈ h.net.results, Delivers res) :
    Reassembles h frames ↔ pieces frames <+: cuts h.net.results :=
  ⟨pieces_of_reassembles htcp hidle hstream hdelivers,
    reassembles_of_pieces htcp hidle hsizes hstream hdelivers⟩

end Stream

end Calls

/-- A new packet, and the stream of some frames on a TCP socket. -/
def streaming (frames : List (List UInt8)) (results : List NativeResult) : Host where
  socket := { protocol := .tcp }
  packet := Packet.fresh
  net := { results, inbound := frames.flatMap frame }

/-- Two frames, with a receive in vain before the first and inside it. -/
theorem reassembles_iff_whole :
    Reassembles (streaming [[10, 20], [30]]
      [.failure .wouldBlock, .count 2, .failure .wouldBlock, .count 2, .count 2, .count 1])
      [[10, 20], [30]] :=
  (reassembles_iff rfl (by decide) (by decide) rfl (by decide)).mpr (by decide)

/-- A payload of two bytes that comes byte by byte: two calls take all of it from the stream, the
second puts its byte over the first one, and the frame is never complete. -/
theorem not_reassembles_cut :
    let h := streaming [[10, 20]] [.count 2, .count 1, .count 1]
    let h' := finalState ((receive >>= fun _ => receive).run h)
    h'.net.inbound = [] ∧ h'.packet.data = [2, 0, 20, 0] ∧ ¬Reassembles h [[10, 20]] := by
  intro h h'
  refine ⟨by decide, by decide, fun hall => ?_⟩
  have hcuts := pieces_of_reassembles (h := h) rfl ⟨by decide, by decide⟩ rfl (by decide) hall
  exact absurd hcuts (by decide)

end Sws.Socket
