import Sws.Packet.Sound

/-!
# Reads Stay Inside the Buffer

A read trusts that the read cursor does not stand behind the buffer.  Three operations size
the buffer without a look at it: a resize, the receive of a payload whose header an earlier
call received, and a write into a buffer that was empty.

Runs are made of raw operations; a typed form counts as the raw reads and writes it makes.

## Key Results

- `readsInside_iff_safe`: which packets can be read safely.
- `careful_iff`: which operations leave such a packet, for every operation and every packet.
- `readsInside_of_careful`: runs of careful operations.
-/

namespace Sws.Packet

open Sws.Foundation
open Socket (Idle Awaiting Progress Overflow Delivered Fits)

/-! ## Safe packets -/

/-- The read does not compute a size below zero, and what it copies lies inside the buffer. -/
structure ReadsInside (p : Packet) (size : ℕ) (whole : Bool) : Prop where
  no_wrap : p.empty = false → 0 ≤ (p.realSize : Int) - p.readPos
  inside : ∃ bytes q, (readData size whole).run p = .ok bytes q ∧
    (bytes = [] ∨ (0 ≤ p.readPos ∧ p.readPos + bytes.length ≤ p.data.length))

/-- The payload is empty, or the read cursor stands in the buffer or at its end. -/
def Safe (p : Packet) : Prop := p.data.length ≤ 2 ∨ p.readPos ≤ p.data.length

/-- Reads stay inside the buffer exactly where the read cursor does. -/
theorem readsInside_iff_safe {p : Packet} (hp : Sound InRange p) :
    (∀ size whole, ReadsInside p size whole) ↔ Safe p := by
  have hlen := hp.inLimits.1
  have hread := hp.readPos.1
  simp only [datagramSize] at hlen
  constructor
  · intro h
    -- a read of no bytes computes the size as any other does
    have hwrap := (h 0 false).no_wrap
    rcases Nat.lt_or_ge 2 p.data.length with hlong | hshort
    · have hempty : p.empty = false := by
        rw [← Bool.not_eq_true, empty_iff]
        omega
      have hsub := hwrap hempty
      simp only [realSize] at hsub
      exact .inr (by omega)
    · exact .inl hshort
  · intro h size whole
    rcases Nat.lt_or_ge 2 p.data.length with hlong | hshort
    · -- with the cursor in the buffer the read takes what lies behind it
      have hin : p.readPos ≤ p.data.length := by
        rcases h with h | h
        · omega
        · exact h
      refine ⟨fun _ => by simp only [realSize]; omega, ?_⟩
      rcases Classical.em (p.available size = 0 ∨ (whole = true ∧ p.available size < size))
        with hnone | hsome
      · exact ⟨[], p, readData_nothing (by omega) (by omega) hnone, .inl rfl⟩
      · refine ⟨_, _, readData_ok (by omega) (by omega) hsome, .inr ⟨by omega, ?_⟩⟩
        rw [List.length_take, List.length_drop, available]
        omega
    · -- nothing is computed for an empty payload
      have hempty : p.empty = true := p.empty_iff.mpr hshort
      refine ⟨fun hnot => ?_, [], p, ?_, .inl rfl⟩
      · rw [hempty] at hnot
        cases hnot
      · simp [readData, hempty]

/-! ## Careful operations -/

/-- The operation does not leave the read cursor behind a buffer that is not empty. -/
def Careful (p : Packet) : Operation → Prop
  | .writeData bytes whole =>
    2 < p.data.length ∨ Refuses p bytes.length whole ∨
      p.writePos.toNat + p.room bytes.length ≤ 2 ∨
      p.readPos ≤ (p.writePos.toNat + p.room bytes.length : ℕ)
  | .resize size => clampSize size ≤ 2 ∨ p.readPos ≤ clampSize size
  | .receive socket _ =>
    socket.protocol = .udp ∨ p.recvTarget < 0 ∨ p.readPos ≤ p.recvTarget + 2
  | _ => True

section Operations

variable {p : Packet}

/-- Only the buffer's size and the read cursor matter. -/
theorem safe_iff_of_rebuilt {q : Packet} {n : ℕ} (hq : Rebuilt p q n) :
    Safe q ↔ n ≤ 2 ∨ p.readPos ≤ n := by
  rw [Safe, hq.length_eq, hq.readPos]

/-- What holds of every end of an operation holds of the state it leaves. -/
theorem safe_finalState_iff {m : PacketM Unit} {c : Prop}
    (h : Ensures (· = p) m (fun _ q => Safe q ↔ c) (fun _ q => Safe q ↔ c)) :
    c ↔ Safe (finalState (m.run p)) :=
  (Ensures.finalState (Q := fun q => Safe q ↔ c) h).symm

theorem careful_writeData (hp : Sound InRange p) (hs : Safe p) (bytes : List UInt8)
    (whole : Bool) :
    Ensures (· = p) (writeData bytes whole) (fun _ q => Safe q ↔ Careful p (.writeData bytes whole))
      (fun _ q => Safe q ↔ Careful p (.writeData bytes whole)) := by
  -- a write that is refused leaves the buffer, and any other sizes it
  have hlength : (p.lengthAfter bytes.length whole ≤ 2 ∨
      p.readPos ≤ p.lengthAfter bytes.length whole) ↔ Careful p (.writeData bytes whole) := by
    have hread := hp.readPos.1
    have hwrite := hp.inLimits.2.1
    simp only [Safe, Careful, lengthAfter] at hs ⊢
    rcases Classical.em (Refuses p bytes.length whole) with hrefuses | hrefuses
    · simp only [hrefuses, if_true, true_or, or_true, iff_true]
      exact hs
    · simp only [hrefuses, if_false, false_or]
      split <;> omega
  refine (writeData_rebuilds hp.inLimits bytes whole).weaken (fun _ h => h) ?_ ?_
  · intro _ q hq
    rw [safe_iff_of_rebuilt hq, hlength]
  · rintro _ q (hstrays | hq)
    · -- the buffer has grown to the write cursor, and nothing was written
      rw [safe_iff_of_rebuilt (hstrays.rebuilt hp.inLimits)]
      obtain ⟨hroom, hout⟩ := hstrays.outside
      simp only [Careful, hstrays.taken, hroom, false_or, Nat.add_zero]
      simp only [Safe] at hs
      omega
    · rw [safe_iff_of_rebuilt hq.2, hlength]

theorem careful_resize (hp : Sound InRange p) (size : ℕ) :
    Ensures (· = p) (resize size) (fun _ q => Safe q ↔ Careful p (.resize size))
      (fun _ q => Safe q ↔ Careful p (.resize size)) := by
  refine (resize_rebuilds hp.inLimits size).weaken (fun _ h => h) ?_ ?_
  · intro _ q hq
    exact safe_iff_of_rebuilt hq
  · intro _ q hq
    exact safe_iff_of_rebuilt hq.2

theorem safe_readData (hp : Sound InRange p) (hs : Safe p) (size : ℕ) (whole : Bool) :
    Ensures (· = p) (readData size whole) (fun _ => Safe) (fun _ => Safe) := by
  have hin := (readsInside_iff_safe hp).mpr hs size whole
  rcases readData_cases size whole p with hrun | ⟨k, hk, hrun⟩ | hrun
  · exact Ensures.of_ok hrun hs
  · exact Ensures.of_ok hrun (.inr hk)
  · exact Ensures.of_error hrun hs

theorem safe_seek (hp : Sound InRange p) (hs : Safe p) (cursor : SeekCursor) (type : SeekType)
    (value : Int64) :
    Ensures (· = p) (seek cursor type value) (fun _ => Safe) (fun _ => Safe) := by
  have hlen := hp.inLimits.1
  have hsize : p.workSize < 2 ^ 62 := by
    rw [workSize_eq]
    simp only [datagramSize] at hlen
    omega
  -- a seek puts the read cursor inside the payload
  have hread : Ensures (· = p) (onReadPos (seekImpl p.workSize type value)) (fun _ => Safe)
      (fun _ => Safe) := by
    refine (Ensures.zoom (seekImpl_effect hsize type value p.readPos)).weaken (fun _ h => h) ?_ ?_
    · rintro _ q ⟨pos, hpos, rfl⟩
      show p.data.length ≤ 2 ∨ pos ≤ p.data.length
      rw [workSize_eq] at hpos
      omega
    · rintro e q ⟨pos, ⟨rfl, -⟩, rfl⟩
      exact hs
  -- the write cursor does not matter
  have hwrite : ∀ n, Ensures Safe (onWritePos (seekImpl n type value)) (fun _ => Safe)
      (fun _ => Safe) := by
    refine fun n => Ensures.of_eq fun q hq => ?_
    have hany : Ensures (· = q.writePos) (seekImpl n type value) (fun _ _ => True)
        (fun _ _ => True) := ⟨fun pos _ => by cases seekImpl n type value pos <;> trivial⟩
    refine (Ensures.zoom hany).weaken (fun _ h => h) ?_ ?_
    · rintro _ r ⟨pos, -, rfl⟩
      exact hq
    · rintro _ r ⟨pos, -, rfl⟩
      exact hq
  refine Ensures.get_bind fun q hq => ?_
  rw [hq]
  cases cursor with
  | read => exact hread
  | write => exact (hwrite _).weaken (fun _ h => h ▸ hs) (fun _ _ h => h) (fun _ _ h => h)
  | both => exact Ensures.bind hread fun _ => hwrite _

theorem safe_of_datagram {α : Type} {socket : Socket} {net : Net} {m : HostM α} (hs : Safe p)
    (hm : Ensures (fun h => h.packet = p) m (fun _ h => h.packet = p ∨ Delivered p h.packet)
      (fun _ h => h.packet = p)) :
    Ensures (· = p) (hosted socket net m) (fun _ => Safe) (fun _ => Safe) := by
  refine ensures_hosted (hm.weaken (fun _ h => h.1) ?_ ?_)
  · rintro _ h (rfl | ⟨bytes, hannounces, hle, hq⟩)
    · exact hs
    · -- the read cursor stands behind the header of the datagram
      have htwo := ((Socket.announces_iff hle).mp hannounces).1
      rw [hq]
      exact .inr (by show (2 : Int) ≤ bytes.length; omega)
  · rintro _ h rfl
    exact hs

/-- A payload announced by an earlier call sizes the buffer whatever has been read since. -/
theorem safe_iff_of_awaiting (hp : Sound InRange p) {q r : Packet} {t : ℕ}
    (hr : Awaiting p r t) (hlen : q.data.length = clampSize (t + 2))
    (hpos : q.readPos = r.readPos) :
    Safe q ↔ p.recvTarget < 0 ∨ p.readPos ≤ p.recvTarget + 2 := by
  have hread := hp.readPos.2
  have hclamp := clampSize_mem (t + 2)
  rw [Safe, hlen, hpos]
  -- only a header that this call has read moves the read cursor back
  cases hr with
  | announced hidle ht =>
    have htwo : (p.cleared).readPos = 2 := rfl
    simp only [htwo, hidle.2, true_or, iff_true]
    exact .inr (by omega)
  | resumed ht htpos =>
    simp only [clampSize, datagramSize, ht] at *
    omega

theorem safe_iff_of_progress (hp : Sound InRange p) {q : Packet} (hq : Progress p q) :
    Safe q ↔ p.recvTarget < 0 ∨ p.readPos ≤ p.recvTarget + 2 := by
  cases hq with
  | cleared hidle =>
    simp only [hidle.2, true_or, iff_true]
    exact .inl (Nat.le_refl 2)
  | framed hr hfits => exact safe_iff_of_awaiting hp hr (length_resized _ _) rfl
  | @received r t bytes hr hfits hle =>
    refine safe_iff_of_awaiting hp hr ?_ rfl
    have hclamp := clampSize_of_mem ⟨Nat.le_add_left 2 t, Nat.le_of_lt hfits.1⟩
    rw [Socket.length_received hfits hle, hclamp]

theorem safe_iff_of_overflow (hp : Sound InRange p) {q : Packet} (hq : Overflow p q) :
    Safe q ↔ p.recvTarget < 0 ∨ p.readPos ≤ p.recvTarget + 2 := by
  obtain ⟨hr, -, hrebuilt⟩ := hq
  exact safe_iff_of_awaiting hp hr hrebuilt.length_eq hrebuilt.readPos

theorem careful_receive (hp : Sound InRange p) (hs : Safe p) (socket : Socket) (net : Net) :
    Ensures (· = p) (hosted socket net Socket.receive)
      (fun _ q => Safe q ↔ Careful p (.receive socket net))
      (fun _ q => Safe q ↔ Careful p (.receive socket net)) := by
  rcases Classical.em (socket.protocol = .udp) with hudp | htcp
  · rw [hosted_receive_udp hudp]
    have hcareful : Careful p (.receive socket net) := .inl hudp
    exact (safe_of_datagram hs (Socket.receiveUdp_effect p)).weaken (fun _ h => h)
      (fun _ _ hq => iff_of_true hq hcareful) (fun _ _ hq => iff_of_true hq hcareful)
  · have hcareful : Careful p (.receive socket net) ↔
        p.recvTarget < 0 ∨ p.readPos ≤ p.recvTarget + 2 := or_iff_right htcp
    have heffect := Socket.receiveTcp_effect hp.inLimits hp.idle_or_awaiting
    refine ensures_hosted (heffect.weaken ?_ ?_ ?_)
    · rintro h ⟨hpacket, rfl⟩
      exact ⟨hpacket, htcp⟩
    · intro _ h hq
      rw [hcareful, safe_iff_of_progress hp hq]
    · rintro e h (⟨-, hq⟩ | ⟨-, hq⟩)
      · rw [hcareful, safe_iff_of_progress hp hq]
      · rw [hcareful, safe_iff_of_overflow hp hq]

/-- **Careful operations.** From a packet that can be read safely, exactly the careful
operations leave one, whether they return, throw, or do not return at all. -/
theorem careful_iff (hp : Sound InRange p) (hs : Safe p) (op : Operation)
    (hops : ∀ q ∈ op.operands, Safe q) :
    Careful p op ↔ Safe (finalState (op.apply.run p)) := by
  have hdone : ∀ {α : Type} {m : PacketM α} {c : Prop},
      Ensures (· = p) m (fun _ q => Safe q ↔ c) (fun _ q => Safe q ↔ c) →
      Ensures (· = p) (do let _ ← m) (fun _ q => Safe q ↔ c) (fun _ q => Safe q ↔ c) :=
    fun hm => Ensures.bind hm fun _ => Ensures.pure fun _ h => h
  -- most operations are careful anyway
  have htrue : ∀ {α : Type} {m : PacketM α},
      Ensures (· = p) m (fun _ => Safe) (fun _ => Safe) →
      Ensures (· = p) m (fun _ q => Safe q ↔ True) (fun _ q => Safe q ↔ True) :=
    fun hm => hm.weaken (fun _ h => h) (fun _ _ h => iff_true_intro h) fun _ _ h => iff_true_intro h
  apply safe_finalState_iff
  cases op with
  | seek cursor type value => exact htrue (safe_seek hp hs cursor type value)
  | readData size whole => exact hdone (htrue (safe_readData hp hs size whole))
  | writeData bytes whole => exact hdone (careful_writeData hp hs bytes whole)
  | resize size => exact careful_resize hp size
  | clear => exact htrue (Ensures.of_ok (clear_run p) (.inl (Nat.le_refl 2)))
  | shrinkToFit => exact htrue (Ensures.pure fun _ h => h ▸ hs)
  | send socket net =>
    refine hdone (htrue (ensures_hosted ((Socket.send_effect hp.sendPos).weaken ?_ ?_ ?_)))
    · exact fun _ h => h.1
    · rintro _ h rfl
      exact hs
    · rintro e h ⟨-, hq⟩
      have hsame : Safe h.packet ↔ Safe h.packet.sendReset := Iff.rfl
      rw [hsame, hq]
      exact hs
  | sendTo inet address socket net =>
    refine hdone (htrue (ensures_hosted ((Socket.sendTo_effect p inet address).weaken ?_ ?_ ?_)))
    · exact fun _ h => h.1
    · rintro _ h rfl
      exact hs
    · rintro _ h rfl
      exact hs
  | receive socket net => exact hdone (careful_receive hp hs socket net)
  | receiveFrom inet socket net =>
    exact hdone (htrue (safe_of_datagram hs (Socket.receiveFrom_effect p inet)))
  | moveOut => exact htrue (Ensures.modify fun _ _ => .inl (Nat.zero_le 2))
  | assign packet =>
    exact htrue (Ensures.set fun _ _ => hops packet (List.mem_singleton.mpr rfl))

end Operations

/-! ## Whole runs -/

/-- The packets that runs of careful operations build from new ones. -/
def CarefullyReachable : Packet → Prop :=
  Generated Constructed Operation.operands fun p op p' => Careful p op ∧ Step p op p'

theorem CarefullyReachable.reachable {p : Packet} (hp : CarefullyReachable p) : Reachable p :=
  Generated.mono (fun _ _ _ h => h.2) hp

theorem safe_of_careful {p : Packet} (hp : CarefullyReachable p) : Sound InRange p ∧ Safe p := by
  refine Generated.invariant (P := fun p => Sound InRange p ∧ Safe p) ?_ ?_ hp
  · intro q hq
    rw [constructed_iff.mp hq]
    exact ⟨sound_fresh, .inl (Nat.le_refl 2)⟩
  · rintro q op q' ⟨hsound, hsafe⟩ hops ⟨hcareful, hstep⟩
    refine ⟨sound_step hsound (fun r hr => (hops r hr).1) hstep, ?_⟩
    -- the state a caller finds is the one the operation has left
    rw [Leaves.eq_finalState hstep]
    exact (careful_iff hsound hsafe op fun r hr => (hops r hr).2).mp hcareful

/-- **Read safety.** In every run of careful operations, exceptions caught, every read of every
packet reached stays inside its buffer. -/
theorem readsInside_of_careful {p : Packet} (hp : CarefullyReachable p) (size : ℕ)
    (whole : Bool) : ReadsInside p size whole := by
  obtain ⟨hsound, hsafe⟩ := safe_of_careful hp
  exact (readsInside_iff_safe hsound).mpr hsafe size whole

/-- A read of two bytes, of which the first was written. -/
theorem readsInside_of_careful_written :
    ReadsInside { fresh with data := [1, 0, 7], writePos := 3 } 2 false :=
  readsInside_of_careful (.step (i := .writeData [7] true) (.init (constructed_iff.mpr rfl))
    (by simp [Operation.operands]) ⟨.inr (.inr (.inr (by decide))), rfl⟩) 2 false

/-- Three bytes written and skipped, and the buffer cut to two: the read cursor stands behind
it. -/
def cut : Packet := { data := [2, 0, 1, 2], readPos := 5, writePos := 2 }

/-- A packet that no exception has touched, and a read of one byte from it that goes out of
bounds. -/
theorem not_readsInside_cut :
    Reachable cut ∧ ¬ReadsInside cut 1 true ∧
      (readData 1 true).run cut = .error (.undefined .outOfBounds) cut := by
  have hrun : (readData 1 true).run cut = .error (.undefined .outOfBounds) cut := rfl
  refine ⟨?_, ?_, hrun⟩
  · have hwritten : Reachable { fresh with data := [3, 0, 1, 2, 3], writePos := 5 } :=
      reachable_written [1, 2, 3] rfl
    have hread : Reachable { data := [3, 0, 1, 2, 3], readPos := 5, writePos := 5 } :=
      hwritten.step (.seek .read .fromStart 3) (by simp [Operation.operands]) rfl
    have hback : Reachable { data := [3, 0, 1, 2, 3], readPos := 5, writePos := 2 } :=
      hread.step (.seek .write .fromStart 0) (by simp [Operation.operands]) rfl
    exact hback.step (.resize 4) (by simp [Operation.operands]) rfl
  · intro h
    obtain ⟨bytes, q, hok, -⟩ := h.inside
    rw [hrun] at hok
    cases hok

end Sws.Packet
