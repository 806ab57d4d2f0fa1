import Sws.Socket.TransferAll

/-!
# Spans of Any Size

`send_all` and `receive_all` of a span hand its size on as an `int`.  A size of `2 ^ 31` or more
becomes a smaller number, a negative one or zero among them, and so many bytes are all that is
transferred before the call reports that it is done.

## Key Results

- `sendAll_done`, `receiveAll_done`: what has been transferred when a call returns `true`, for any
  `int`.
- `exists_done`: for any `int` there are native results on which the calls return `true`.
- `spanComplete_iff`: the sizes for which `true` means that the whole span has been transferred.
-/

namespace Sws.TcpSocket

open Sws.Foundation
open Socket

section AnyLength

variable {x y : Exchange} {length : Int}

/-- Nothing is to be done for a length that is not positive. -/
theorem transferLoop_nonpos {transfer : Int → Int → ExchangeM Int} {fuel : ℕ}
    (hlength : length ≤ 0) : (transferLoop transfer length (fuel + 1) 0).run x = .ok true x := by
  have hnone : ¬(0 : Int) < length := by omega
  simp [transferLoop, hnone]

/-- A call that transfers exactly has transferred everything once it returns `true`. -/
theorem Exactly.moved_of_done {call : ExchangeM Bool} {Moved : ℕ → Exchange → Prop}
    {size stock : ℕ} (h : Exactly call Moved size stock x) (hrun : call.run x = .ok true y) :
    Moved size y := by
  obtain ⟨total, -, hmoved, hdone⟩ := h.moments x.host.net.results.length
  rw [firstResults_all] at hmoved hdone
  rw [hdone.mp ⟨y, hrun⟩, hrun] at hmoved
  exact hmoved

/-- A call that does nothing for a length that is not positive, and else transfers exactly, has
transferred as much as the length says once it returns `true`. -/
theorem moved_of_done (call : Int → ExchangeM Bool) (Moved : ℕ → ℕ → Exchange → Prop)
    (hnonpos : length ≤ 0 → (call length).run x = .ok true x)
    (hstart : Moved 0 0 (firstResults x x.host.net.results.length))
    (hexactly : ∀ size : ℕ, size ≤ x.buffer.length →
      ∃ stock, Exactly (call size) (Moved size) size stock x)
    (hbuffer : length ≤ x.buffer.length) (hrun : (call length).run x = .ok true y) :
    Moved length.toNat length.toNat y := by
  rcases le_or_gt length 0 with hnone | hpos
  · rw [hnonpos hnone] at hrun
    cases hrun
    rw [firstResults_all] at hstart
    rw [Int.toNat_of_nonpos hnone]
    exact hstart
  · obtain ⟨size, rfl⟩ := Int.eq_ofNat_of_zero_le (Int.le_of_lt hpos)
    obtain ⟨stock, hsize⟩ := hexactly size (Int.ofNat_le.mp hbuffer)
    exact hsize.moved_of_done hrun

/-- What `send_all` has sent when it returns `true`; nothing for a negative length. -/
theorem sendAll_done (hbuffer : length ≤ x.buffer.length)
    (hrun : (sendAll length).run x = .ok true y) : Sent x length.toNat length.toNat y := by
  refine moved_of_done sendAll (Sent x) transferLoop_nonpos (Sent.start x 0 _) ?_ hbuffer hrun
  intro size hsize
  exact ⟨_, sendAll_exactly hsize⟩

theorem receiveAll_done (hbuffer : length ≤ x.buffer.length)
    (hrun : (receiveAll length).run x = .ok true y) :
    Received x length.toNat length.toNat y := by
  refine moved_of_done receiveAll (Received x) transferLoop_nonpos (Received.start x 0 _) ?_
    hbuffer hrun
  intro size hsize
  exact ⟨_, receiveAll_exactly hsize⟩

/-- A host whose native calls transfer everything in one go, or are not made. -/
def allAtOnce (size : ℕ) : Host where
  socket := { protocol := .tcp }
  packet := Packet.fresh
  net := { results := [.count size], inbound := List.replicate size 0 }

theorem length_inbound_allAtOnce (size : ℕ) : (allAtOnce size).net.inbound.length = size :=
  List.length_replicate

theorem exists_done (data : List UInt8) (hbuffer : length ≤ data.length) :
    (∃ y, (sendAll length).run ⟨allAtOnce length.toNat, data⟩ = .ok true y) ∧
      ∃ y, (receiveAll length).run ⟨allAtOnce length.toNat, data⟩ = .ok true y := by
  rcases le_or_gt length 0 with hnonpos | hpos
  · exact ⟨⟨_, transferLoop_nonpos hnonpos⟩, ⟨_, transferLoop_nonpos hnonpos⟩⟩
  · obtain ⟨size, rfl⟩ := Int.eq_ofNat_of_zero_le (Int.le_of_lt hpos)
    have hsize : 0 < size := Int.natCast_pos.mp hpos
    have hfits : size ≤ data.length := Int.ofNat_le.mp hbuffer
    have hone : ∃ k, (∀ r ∈ [NativeResult.count size].take k, (round r).GoesOn) ∧
        bytesOf ([NativeResult.count size].take k) = size :=
      ⟨1, by simpa [round_count hsize] using hsize, by simp [bytesOf, round_count hsize]⟩
    constructor
    · exact (sendAll_exactly (x := ⟨allAtOnce size, data⟩) hfits).returns_true.mpr
        ⟨hone, Nat.le_refl size⟩
    · exact (receiveAll_exactly (x := ⟨allAtOnce size, data⟩) hfits).returns_true.mpr
        ⟨hone, Nat.le_of_eq (length_inbound_allAtOnce size).symm⟩

end AnyLength

/-! ## Spans -/

/-- Whenever `send_all` of the span returns `true`, the whole span has been sent. -/
def SendsWhole (data : List UInt8) : Prop :=
  ∀ host y, sendAllSpan.run ⟨host, data⟩ = .ok true y →
    y.host.net.accepted = host.net.accepted ++ data

/-- Whenever `receive_all` into the span returns `true`, all of its bytes have been received. -/
def ReceivesWhole (data : List UInt8) : Prop :=
  ∀ host y, receiveAllSpan.run ⟨host, data⟩ = .ok true y →
    data.length ≤ host.net.inbound.length ∧
      y.host.net.inbound = host.net.inbound.drop data.length ∧
      y.buffer = host.net.inbound.take data.length

section Spans

variable {data : List UInt8}

theorem sendAllSpan_run (host : Host) (data : List UInt8) :
    sendAllSpan.run ⟨host, data⟩ = (sendAll (toInt data.length)).run ⟨host, data⟩ :=
  EStateM.run_bind ..

theorem receiveAllSpan_run (host : Host) (data : List UInt8) :
    receiveAllSpan.run ⟨host, data⟩ = (receiveAll (toInt data.length)).run ⟨host, data⟩ :=
  EStateM.run_bind ..

theorem toInt_length (hsize : data.length < 2 ^ 31) : toInt data.length = data.length :=
  toInt_of_mem (Int.natCast_nonneg _) (by omega)

theorem toInt_length_lt (hsize : 2 ^ 31 ≤ data.length) : toInt data.length < data.length :=
  toInt_lt (by omega)

theorem toInt_length_le (data : List UInt8) : toInt data.length ≤ data.length := by
  rcases lt_or_ge data.length (2 ^ 31) with hsmall | hlarge
  · exact Int.le_of_eq (toInt_length hsmall)
  · exact Int.le_of_lt (toInt_length_lt hlarge)

theorem sendsWhole (hsize : data.length < 2 ^ 31) : SendsWhole data := by
  intro host y hrun
  rw [sendAllSpan_run] at hrun
  have hsent := sendAll_done (x := ⟨host, data⟩) (toInt_length_le data) hrun
  have haccepted := hsent.accepted_eq
  rw [toInt_length hsize, Int.toNat_natCast, List.take_length] at haccepted
  exact haccepted

theorem receivesWhole (hsize : data.length < 2 ^ 31) : ReceivesWhole data := by
  intro host y hrun
  rw [receiveAllSpan_run] at hrun
  have hreceived := receiveAll_done (x := ⟨host, data⟩) (toInt_length_le data) hrun
  rw [toInt_length hsize, Int.toNat_natCast] at hreceived
  refine ⟨hreceived.enough, hreceived.inbound_eq, ?_⟩
  -- the bytes that were received take the place of all that the span held
  have hlen : (host.net.inbound.take data.length).length = data.length := by
    rw [List.length_take, Nat.min_eq_left hreceived.enough]
  have hbuffer := hreceived.buffer_eq
  rw [splice_zero, hlen, List.drop_length, List.append_nil] at hbuffer
  exact hbuffer

/-- More than an `int` can count is never sent whole. -/
theorem not_sendsWhole (hsize : 2 ^ 31 ≤ data.length) : ¬SendsWhole data := by
  intro hwhole
  obtain ⟨⟨y, hrun⟩, -⟩ := exists_done data (toInt_length_le data)
  have hsent := sendAll_done (x := ⟨_, data⟩) (toInt_length_le data) hrun
  have hlt := toInt_length_lt hsize
  have haccepted := hsent.accepted_eq.symm.trans (hwhole _ y ((sendAllSpan_run _ data).trans hrun))
  have hlengths := congrArg List.length haccepted
  simp only [List.length_append, List.length_take] at hlengths
  omega

theorem not_receivesWhole (hsize : 2 ^ 31 ≤ data.length) : ¬ReceivesWhole data := by
  intro hwhole
  obtain ⟨-, y, hrun⟩ := exists_done data (toInt_length_le data)
  have hlt := toInt_length_lt hsize
  have hreceived := hwhole _ y ((receiveAllSpan_run _ data).trans hrun)
  have henough := hreceived.1
  rw [length_inbound_allAtOnce] at henough
  omega

/-- **Whole spans.** Returning `true` means that the whole span has been transferred exactly for
the spans whose size is an `int`. -/
theorem spanComplete_iff (data : List UInt8) :
    (SendsWhole data ↔ data.length < 2 ^ 31) ∧ (ReceivesWhole data ↔ data.length < 2 ^ 31) := by
  constructor
  · refine ⟨fun hwhole => ?_, sendsWhole⟩
    by_contra hsize
    exact not_sendsWhole (not_lt.mp hsize) hwhole
  · refine ⟨fun hwhole => ?_, receivesWhole⟩
    by_contra hsize
    exact not_receivesWhole (not_lt.mp hsize) hwhole

/-- Of a span of `2 ^ 32` bytes nothing is transferred. -/
theorem not_whole_fourGiB :
    ¬SendsWhole (List.replicate (2 ^ 32) 0) ∧ ¬ReceivesWhole (List.replicate (2 ^ 32) 0) := by
  have hsize : 2 ^ 31 ≤ (List.replicate (2 ^ 32) (0 : UInt8)).length := by
    rw [List.length_replicate]
    omega
  exact ⟨not_sendsWhole hsize, not_receivesWhole hsize⟩

end Spans

end Sws.TcpSocket
