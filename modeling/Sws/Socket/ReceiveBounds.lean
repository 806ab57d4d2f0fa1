import Sws.Socket.SendOrder

/-!
# Where a Receive Writes

A receive on a stream sizes the packet's buffer for the payload that the peer has announced, and
then hands the payload's range to the native receive.  For the two largest announcements the
buffer cannot be had; then the resize throws, and nothing is handed out.

## Key Results

- `receiveBody_bounded`, `receive_bounded`: the ranges of one call, in whatever way it ends.
- `receive_handsInside`: every range, at the moment it is handed out.
-/

namespace Sws.Socket

open Sws.Foundation

/-- The range has a byte, lies behind the header and ends in a buffer of the given size. -/
def InPayload (size : ℕ) (range : Int × Int) : Prop :=
  2 ≤ range.1 ∧ 0 < range.2 ∧ range.1 + range.2 ≤ size

/-- The ranges that a call which started in `h` has handed to the native receive up to `g` lie in
the payload of the packet. -/
def Bounded (h g : Host) : Prop :=
  ∃ ranges, g.net.requested = h.net.requested ++ ranges ∧
    ∀ range ∈ ranges, InPayload g.packet.data.length range

section Bounds

variable {h g : Host}

/-- Where nothing has been handed out, nothing is out of bounds. -/
theorem Bounded.of_none (hsame : g.net.requested = h.net.requested) : Bounded h g :=
  ⟨[], by rw [hsame, List.append_nil], by simp⟩

/-- A buffer of the announced size takes the payload. -/
theorem Bounded.of_one {t : ℕ} (hpos : 0 < t)
    (hone : g.net.requested = h.net.requested ++ [(2, (t : Int))])
    (hlen : g.packet.data.length = t + 2) : Bounded h g := by
  refine ⟨[(2, (t : Int))], hone, ?_⟩
  intro range hrange
  rw [List.mem_singleton.mp hrange, hlen]
  refine ⟨Int.le_refl 2, ?_, ?_⟩
  · show (0 : Int) < t
    omega
  · show (2 : Int) + t ≤ (t + 2 : ℕ)
    omega

/-- The payload is received into a buffer that has been sized for it, or the resize throws. -/
theorem receiveBody_bounded {t : ℕ} (ht : h.packet.recvTarget = t) (hpos : 0 < t ∧ t ≤ 65535)
    (hp : h.packet.InLimits) :
    Ensures (· = h) receiveBody (fun _ => Bounded h) (fun _ => Bounded h) := by
  rcases Classical.em (Fits h.packet t) with hfits | hfits
  · have hframed := length_framed hfits
    rcases answers_cases (min t h.net.inbound.length) h.net.results with
      ⟨n, rest, hres, hn⟩ | ⟨e, rest, hres, he⟩ | hpending
    · have hrun := receiveBody_count ht hfits hres hn
      refine Ensures.of_ok (hrun.trans (getErrorState_run _)) (.of_one hpos.1 rfl ?_)
      exact length_received hfits (by rw [List.length_take]; omega)
    · have hrun := receiveBody_failure ht hfits hpos.1 hres he
      exact Ensures.of_ok (hrun.trans (getErrorState_run _)) (.of_one hpos.1 rfl hframed)
    · exact Ensures.of_error (receiveBody_pending ht hfits hpending) (.of_one hpos.1 rfl hframed)
  · obtain ⟨e, q, hrun, -, -⟩ := receiveBody_throws ht hpos.2 hp hfits
    exact Ensures.of_error hrun (.of_none rfl)

/-- One call on a stream, for a packet with the class invariant. -/
theorem receive_bounded (htcp : h.socket.protocol ≠ .udp)
    (hp : Packet.Sound Packet.InRange h.packet) :
    Ensures (· = h) receive (fun _ => Bounded h) (fun _ => Bounded h) := by
  rcases hp.idle_or_awaiting with hidle | ⟨t, ht, hpos⟩
  · rcases answers_cases (min 2 h.net.inbound.length) h.net.results with
      ⟨n, rest, hres, hn⟩ | ⟨e, rest, hres, he⟩ | hpending
    · have hheader := receiveHeader_count hidle hres hn
      rcases Classical.em ((h.net.inbound.take n).length = 2 ∧ ofBytes (h.net.inbound.take n) > 0)
        with hsize | hsize
      · -- a size was announced, and the payload follows
        have hlt := ofBytes_lt (h.net.inbound.take n)
        rw [hsize.1] at hlt
        rw [afterHeader, announced, if_pos hsize] at hheader
        have hrun := receive_announced htcp hheader (Int.natCast_pos.mpr hsize.2)
        have hbody := receiveBody_bounded
          (h := { h with
            packet := { h.packet.cleared with recvTarget := ofBytes (h.net.inbound.take n) }
            net := { h.net with results := rest, inbound := h.net.inbound.drop n } })
          rfl ⟨hsize.2, by omega⟩ (Packet.inLimits_cleared h.packet)
        exact Ensures.of_run_eq hrun hbody rfl
      · rw [afterHeader, announced, if_neg hsize] at hheader
        have hrun := receive_unannounced htcp hheader (Int.le_of_lt hidle.2)
        exact Ensures.of_ok (hrun.trans (getErrorState_run _)) (.of_none rfl)
    · have hrun := receive_unannounced htcp (receiveHeader_failure hidle hres he)
        (Int.le_of_lt hidle.2)
      exact Ensures.of_ok (hrun.trans (getErrorState_run _)) (.of_none rfl)
    · exact Ensures.of_error (receive_of_error htcp (receiveHeader_pending hidle hpending))
        (.of_none rfl)
  · -- the size is known from an earlier call
    have hrun := receive_resuming htcp (show 0 < h.packet.recvTarget by omega)
    exact Ensures.of_run_eq hrun (receiveBody_bounded ht hpos hp.inLimits) rfl

/-- A payload that a packet has room for is asked for as a whole, behind the header. -/
theorem requested_announced {t n : ℕ} (htcp : h.socket.protocol ≠ .udp) (hidle : Idle h.packet)
    (hres : h.net.results = [.count 2, .count n]) (htwo : 2 ≤ h.net.inbound.length)
    (ht : ofBytes (h.net.inbound.take 2) = t) (hpos : 0 < t) (hroom : t + 2 < datagramSize)
    (hn : n ≤ min t (h.net.inbound.drop 2).length) :
    (finalState (receive.run h)).net.requested = h.net.requested ++ [(2, (t : Int))] := by
  have hheader := receiveHeader_count hidle hres (Nat.le_min.mpr ⟨le_rfl, htwo⟩)
  have hsize : (h.net.inbound.take 2).length = 2 ∧ ofBytes (h.net.inbound.take 2) > 0 :=
    ⟨by rw [List.length_take]; omega, by rw [ht]; exact hpos⟩
  rw [afterHeader, announced, if_pos hsize, ht] at hheader
  rw [receive_announced htcp hheader (Int.natCast_pos.mpr hpos)]
  -- the read cursor and the write cursor of a cleared packet stand behind the header
  have hfits : Fits { h.packet.cleared with recvTarget := (t : Int) } t :=
    ⟨hroom, le_rfl, by show (2 : Int) ≤ t + 2; omega⟩
  rw [receiveBody_count rfl hfits rfl hn, getErrorState_run]
  rfl

end Bounds

/-- At every moment of a call the ranges it has handed out lie in the payload of the packet.  A
call that is given only the first `k` native results stops where it asks for the next one. -/
def HandsInside (h : Host) : Prop :=
  ∀ k, Bounded h (finalState (receive.run (cutAfter h k)))

/-- **Bounds of a receive.** Whatever the peer announces, a receive into a packet from the public
interface hands out no range outside it. -/
theorem receive_handsInside {h : Host} (htcp : h.socket.protocol = .tcp)
    (hp : Packet.Reachable h.packet) : HandsInside h := by
  intro k
  have hbounded := receive_bounded (h := cutAfter h k) (ne_udp_of_tcp htcp)
    (Packet.reachable_sound hp)
  exact hbounded.finalState

/-- A peer that announces the largest payload a packet has room for, to a new packet. -/
def largestAnnouncement : Host where
  socket := { protocol := .tcp }
  packet := Packet.fresh
  net := { results := [.count 2, .count 5], inbound := [253, 255, 1, 2, 3, 4, 5] }

theorem receive_handsInside_largest :
    HandsInside largestAnnouncement ∧
      (finalState (receive.run largestAnnouncement)).net.requested = [(2, 65533)] :=
  ⟨receive_handsInside rfl Packet.reachable_fresh,
    requested_announced (by decide) ⟨by decide, by decide⟩ rfl (by decide) (by decide) (by decide)
      (by decide) (by decide)⟩

end Sws.Socket
