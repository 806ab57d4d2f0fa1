import Sws.Packet.Sound

/-!
# The Length Header Over Whole Runs

A packet is used by operations that do not throw, moved from, and used again after a `clear`
or an assignment.  In every such run the header holds the size of the payload after every
step, whatever happens in between.

A read that runs out of bounds does not throw, nor does a write of nothing at the end.  Both are
taken to go on, with any read cursor, so that what is said about runs does not depend on them.

## Key Results

- `keeps_call`: every operation and every typed form keeps the header consistent.
- `consistent_of_used`: the header is consistent after every step of every run.
-/

namespace Sws.Packet

open Sws.Foundation
open Socket (Awaiting Progress Overflow Delivered Fits)

/-! ## Consistent packets -/

/-- The header holds the size of the payload, a 16-bit number, and the write cursor stands in
the payload or at its end. -/
structure Consistent (p : Packet) : Prop where
  length : 2 ≤ p.data.length ∧ p.data.length ≤ 65535
  writePos : 2 ≤ p.writePos ∧ p.writePos ≤ p.data.length
  header : p.verifySize = true

/-- What every step keeps: the class invariant but for the read cursor, and the header. -/
def Kept (p : Packet) : Prop := Sound (fun _ => True) p ∧ p.Consistent

theorem consistent_cleared (p : Packet) : Consistent p.cleared where
  length := by simp [cleared]
  writePos := by simp [cleared]
  header := (cleared_valid p).consistent

/-! ## Runs -/

/-- An operation or a typed form. -/
inductive Call
  | operation (op : Operation)
  | form (f : Form)

def Call.apply : Call → PacketM Unit
  | operation op => op.apply
  | form f => f.apply

/-- The program returns; or it reads or writes out of bounds and goes on. -/
def Returns (m : PacketM Unit) (p p' : Packet) : Prop :=
  m.run p = .ok () p' ∨
  ∃ q pos, m.run p = .error (.undefined .outOfBounds) q ∧ p' = { q with readPos := pos }

/-- A packet object: in use, or moved from and not used since. -/
inductive Slot
  | live (p : Packet)
  | moved (p : Packet)

/-- The other packets a call needs, all of them in use. -/
def Call.operands : Call → List Slot
  | operation (.assign q) | form (.writePacket q) | form (.insertPacket q) => [.live q]
  | _ => []

/-- One step of a run in which nothing throws. -/
inductive Slot.Use : Slot → Call → Slot → Prop
  | call {p p' : Packet} {c : Call} (hmove : c ≠ .operation .moveOut)
      (h : Returns c.apply p p') : Use (.live p) c (.live p')
  | moveOut {p : Packet} : Use (.live p) (.operation .moveOut) (.moved p.movedFrom)
  | clear {p p' : Packet} (h : Returns Packet.clear p p') :
      Use (.moved p) (.operation .clear) (.live p')
  | assign {p q : Packet} : Use (.moved p) (.operation (.assign q)) (.live q)

/-- The packets that such runs make, from new ones. -/
def Used : Slot → Prop :=
  Generated (fun s => ∃ p, Constructed p ∧ s = .live p) Call.operands Slot.Use

/-! ## One operation -/

/-- The program keeps a packet's header consistent if it returns, and also if it reads or writes
out of bounds. -/
def KeepsHeader {α : Type} (m : PacketM α) : Prop :=
  Ensures Kept m (fun _ => Kept) (fun e p => e = .undefined .outOfBounds → Kept p)

/-- The class invariant is kept anyway. -/
theorem keepsHeader_of {α : Type} {m : PacketM α} (hsound : KeepsSound (fun _ => True) m)
    (h : Ensures Kept m (fun _ => Consistent)
      (fun e p => e = .undefined .outOfBounds → Consistent p)) : KeepsHeader m := by
  refine ⟨fun p hp => ?_⟩
  have hleft := hsound.run p hp.1
  have hright := h.run p hp
  -- both assertions are about the same end of the run
  cases hrun : m p with
  | ok a q =>
    rw [hrun] at hleft hright
    exact ⟨hleft, hright⟩
  | error e q =>
    rw [hrun] at hleft hright
    intro he
    exact ⟨hleft (by rw [he]; simp), hright he⟩

section Operations

theorem header_readData (size : ℕ) (whole : Bool) : KeepsHeader (readData size whole) := by
  refine keepsHeader_of (sound_readData readRange_anywhere size whole) ?_
  refine Ensures.of_eq fun p hp => ?_
  rcases readData_cases size whole p with hrun | ⟨k, -, hrun⟩ | hrun
  · exact Ensures.of_ok hrun hp.2
  · exact Ensures.of_ok hrun ⟨hp.2.length, hp.2.writePos, hp.2.header⟩
  · exact Ensures.of_error hrun fun _ => hp.2

theorem header_writeData (bytes : List UInt8) (whole : Bool) :
    KeepsHeader (writeData bytes whole) := by
  refine keepsHeader_of (sound_writeData bytes whole) (Ensures.of_eq fun p hp => ?_)
  obtain ⟨hlen, hpos, hheader⟩ := hp.2
  have hsize : p.data.length < datagramSize := by simp only [datagramSize]; omega
  rcases Classical.em (Refuses p bytes.length whole) with hrefuses | hrefuses
  · exact Ensures.of_ok (writeData_refused hrefuses) hp.2
  rcases Classical.em (PointsOutside p bytes.length) with hout | hin
  · -- the write cursor stands at the end, and the buffer has not grown
    have hgrown : p.makeRoom 0 = p := makeRoom_eq_self (by omega)
    refine Ensures.of_error (writeData_outside hrefuses (by simp only [datagramSize]; omega) hout)
      fun _ => ?_
    rw [hgrown]
    exact hp.2
  rcases Nat.lt_or_ge (p.writePos.toNat + p.room bytes.length) datagramSize with hfits | hfills
  · refine Ensures.of_ok (writeData_ok hrefuses hsize hpos.1 hin hfits) ?_
    -- the header update follows the copy, so the header is that of the new size
    have htaken : (bytes.take (p.room bytes.length)).length = p.room bytes.length := by
      rw [List.length_take, room]; omega
    have hlen' := length_written (bytes.take (p.room bytes.length)) p
    have hcursor : (p.written (bytes.take (p.room bytes.length))).writePos =
        p.writePos + p.room bytes.length := by
      show p.writePos + (bytes.take (p.room bytes.length)).length = _
      rw [htaken]
    rw [htaken] at hlen'
    simp only [datagramSize] at hfits
    exact ⟨by omega, by omega, written_verifySize _ p⟩
  · -- the bytes reach the capacity, and the header update throws
    have hfull : p.writePos.toNat + p.room bytes.length = datagramSize := by
      simp only [room, datagramSize] at *
      omega
    exact Ensures.of_error (writeData_fills hrefuses (Nat.le_of_lt hsize)
      ⟨hpos.1, by omega⟩ hin hfull) (fun he => by cases he)

theorem header_resize (size : ℕ) : KeepsHeader (resize size) := by
  refine keepsHeader_of (sound_resize size) (Ensures.of_eq fun p hp => ?_)
  -- a resize that does not throw ends with the header update
  rcases Classical.em (clampSize size < datagramSize ∧ 2 ≤ p.writePos ∧
    p.writePos ≤ clampSize size) with ⟨hlt, hpos⟩ | hout
  · have hsize : size < datagramSize := by simp only [clampSize, datagramSize] at *; omega
    have hlen := length_resized p size
    simp only [datagramSize] at hlt
    refine Ensures.of_ok (resize_ok size hsize hpos) ⟨by omega, ?_, ?_⟩
    · show 2 ≤ p.writePos ∧ p.writePos ≤ (p.resized size).data.length
      omega
    · exact stamped_verifySize _
  · obtain ⟨e, q, hrun, hcaught, -⟩ := resize_throws hp.1.inLimits size hout
    refine Ensures.of_error hrun ?_
    rintro rfl
    exact absurd hcaught (not_caught_undefined _)

theorem header_clear : KeepsHeader clear := by
  refine keepsHeader_of (sound_clear readRange_anywhere) (Ensures.of_eq fun p _ => ?_)
  exact Ensures.of_ok (clear_run p) (consistent_cleared p)

/-- The header does not depend on the read cursor. -/
theorem Consistent.withReadPos {p : Packet} (hp : p.Consistent) (pos : Int) :
    Consistent { p with readPos := pos } :=
  ⟨hp.length, hp.writePos, hp.header⟩

theorem header_onWritePos (p₀ : Packet) (type : SeekType) (value : Int64) :
    Ensures (fun p => Kept p ∧ p.data = p₀.data) (onWritePos (seekImpl p₀.workSize type value))
      (fun _ => Kept) (fun e p => e = .undefined .outOfBounds → Kept p) := by
  refine Ensures.of_eq fun p ⟨hp, hdata⟩ => ?_
  obtain ⟨hlen, hpos, hheader⟩ := hp.2
  have hwork : p₀.workSize = p.data.length - 2 := by rw [workSize_eq, hdata]
  have hsize : p₀.workSize < 2 ^ 62 := by omega
  refine (Ensures.zoom (seekImpl_effect hsize type value p.writePos)).weaken (fun _ h => h) ?_ ?_
  · rintro _ q ⟨pos, hin, rfl⟩
    have hlimits : (0 : Int) ≤ pos ∧ pos ≤ datagramSize := by
      simp only [datagramSize]
      omega
    refine ⟨⟨⟨hp.1.inLimits.1, hlimits⟩, hp.1.readPos, hp.1.sendPos, hp.1.receiving⟩, hlen, ?_,
      hheader⟩
    -- the payload is as long as it was when the seek began
    show 2 ≤ pos ∧ pos ≤ p.data.length
    omega
  · rintro e q ⟨pos, ⟨rfl, -⟩, rfl⟩ _
    exact hp

theorem header_seek (cursor : SeekCursor) (type : SeekType) (value : Int64) :
    KeepsHeader (seek cursor type value) := by
  refine Ensures.get_bind fun p hp => ?_
  have hlen := hp.2.length
  have hsize : p.workSize + 2 ≤ datagramSize := by
    rw [workSize_eq]
    simp only [datagramSize]
    omega
  -- the read cursor is sought first, and leaves the buffer alone
  have hread : Ensures (· = p) (onReadPos (seekImpl p.workSize type value))
      (fun _ q => Kept q ∧ q.data = p.data) (fun e q => e = .undefined .outOfBounds → Kept q) := by
    have hwork : p.workSize < 2 ^ 62 := by simp only [datagramSize] at hsize; omega
    refine (Ensures.zoom (seekImpl_effect hwork type value p.readPos)).weaken (fun _ h => h) ?_ ?_
    · rintro _ q ⟨pos, -, rfl⟩
      exact ⟨⟨⟨hp.1.inLimits, trivial, hp.1.sendPos, hp.1.receiving⟩, hp.2.withReadPos pos⟩, rfl⟩
    · rintro e q ⟨pos, ⟨rfl, -⟩, rfl⟩ _
      exact hp
  have hwrite := header_onWritePos p type value
  cases cursor with
  | read => exact hread.weaken (fun _ h => h) (fun _ _ h => h.1) (fun _ _ h => h)
  | write =>
    refine hwrite.weaken ?_ (fun _ _ h => h) (fun _ _ h => h)
    rintro _ rfl
    exact ⟨hp, rfl⟩
  | both => exact Ensures.bind hread fun _ => hwrite

theorem header_send (socket : Socket) (net : Net) :
    KeepsHeader (hosted socket net Socket.send) := by
  refine keepsHeader_of (sound_send socket net) (Ensures.of_eq fun p hp => ensures_hosted ?_)
  refine (Socket.send_effect hp.1.sendPos).weaken (fun _ h => h.1) ?_ ?_
  · rintro _ h rfl
    exact hp.2
  · rintro e h ⟨rfl, -⟩ he
    cases he

theorem header_sendTo (inet : InetText) (address : Address) (socket : Socket) (net : Net) :
    KeepsHeader (hosted socket net (UdpSocket.sendTo inet address)) := by
  refine keepsHeader_of (sound_sendTo inet address socket net)
    (Ensures.of_eq fun p hp => ensures_hosted ?_)
  refine (Socket.sendTo_effect p inet address).weaken (fun _ h => h.1) ?_ ?_
  · rintro _ h rfl
    exact hp.2
  · rintro e h rfl _
    exact hp.2

/-- A datagram is only taken for a packet if its header is consistent. -/
theorem consistent_delivered {p q : Packet} (hq : Delivered p q) : Consistent q := by
  obtain ⟨bytes, hannounces, hle, rfl⟩ := hq
  obtain ⟨htwo, hlt, hheader⟩ := (Socket.announces_iff hle).mp hannounces
  simp only [datagramSize] at hlt
  refine ⟨⟨htwo, by show bytes.length ≤ 65535; omega⟩, ?_, ?_⟩
  · show (2 : Int) ≤ bytes.length ∧ (bytes.length : Int) ≤ bytes.length
    omega
  · -- the two bytes of the header are those of the number it announces
    have htake : (bytes.take 2).length = 2 := by rw [List.length_take]; omega
    have hbytes := toBytes_ofBytes (bytes.take 2)
    rw [htake, hheader] at hbytes
    exact (verifySize_iff _).mpr ⟨htwo, hbytes.symm⟩

theorem header_of_datagram {α : Type} {socket : Socket} {net : Net} {m : HostM α}
    (hm : ∀ p, Ensures (fun h => h.packet = p) m
      (fun _ h => h.packet = p ∨ Delivered p h.packet) (fun _ h => h.packet = p)) :
    KeepsHeader (hosted socket net m) := by
  refine keepsHeader_of (sound_of_datagram readRange_anywhere hm)
    (Ensures.of_eq fun p hp => ensures_hosted ((hm p).weaken (fun _ h => h.1) ?_ ?_))
  · rintro _ h (rfl | hdelivered)
    · exact hp.2
    · exact consistent_delivered hdelivered
  · rintro e h rfl _
    exact hp.2

/-- A resize to a payload that fits writes its size. -/
theorem consistent_framed {p : Packet} {t : ℕ} (hfits : Fits p t) :
    Consistent (Socket.framed p t) := by
  have hlen := Socket.length_framed hfits
  obtain ⟨hlt, hpos⟩ := hfits
  simp only [datagramSize] at hlt
  refine ⟨by omega, ?_, stamped_verifySize _⟩
  show 2 ≤ p.writePos ∧ p.writePos ≤ (Socket.framed p t).data.length
  omega

/-- What arrives is put behind the header. -/
theorem consistent_received {p : Packet} {t : ℕ} (hfits : Fits p t) {bytes : List UInt8}
    (hle : bytes.length ≤ t) : Consistent (Socket.received p t bytes) := by
  obtain ⟨hlen, hpos, hheader⟩ := consistent_framed hfits
  have hspliced : (splice (Socket.framed p t).data 2 bytes).length =
      (Socket.framed p t).data.length :=
    (Socket.length_received hfits hle).trans (Socket.length_framed hfits).symm
  refine ⟨?_, ?_, ?_⟩
  · show 2 ≤ (splice (Socket.framed p t).data 2 bytes).length ∧
      (splice (Socket.framed p t).data 2 bytes).length ≤ 65535
    rwa [hspliced]
  · show 2 ≤ (Socket.framed p t).writePos ∧
      (Socket.framed p t).writePos ≤ (splice (Socket.framed p t).data 2 bytes).length
    rwa [hspliced]
  · -- the payload is put behind the header, which stays
    rw [verifySize_iff] at hheader ⊢
    show 2 ≤ (splice (Socket.framed p t).data 2 bytes).length ∧
      (splice (Socket.framed p t).data 2 bytes).take 2 =
        toBytes 2 ((splice (Socket.framed p t).data 2 bytes).length - 2)
    rwa [hspliced, take_splice _ _ (Nat.le_refl 2) hlen.1]

theorem consistent_progress {p q : Packet} (hq : Progress p q) : Consistent q := by
  cases hq with
  | cleared hidle => exact consistent_cleared p
  | framed hq hfits => exact consistent_framed hfits
  | received hq hfits hle => exact consistent_received hfits hle

theorem header_receive (socket : Socket) (net : Net) :
    KeepsHeader (hosted socket net Socket.receive) := by
  rcases Classical.em (socket.protocol = .udp) with hudp | htcp
  · rw [hosted_receive_udp hudp]
    exact header_of_datagram Socket.receiveUdp_effect
  · refine keepsHeader_of (sound_receive readRange_anywhere socket net)
      (Ensures.of_eq fun p hp => ensures_hosted ?_)
    refine (Socket.receiveTcp_effect hp.1.inLimits hp.1.idle_or_awaiting).weaken ?_ ?_ ?_
    · rintro h ⟨hpacket, rfl⟩
      exact ⟨hpacket, htcp⟩
    · intro _ h hq
      exact consistent_progress hq
    · rintro e h (⟨rfl, -⟩ | ⟨hcaught, -⟩) he
      · -- what a resize throws is no read out of bounds
        cases he
      · rw [he] at hcaught
        exact absurd hcaught (not_caught_undefined _)

/-- Raw reads and writes keep the header consistent. -/
theorem header_stable :
    Stable Kept (fun e p => e = .undefined .outOfBounds → Kept p) where
  thrown _ he := by cases he
  outOfBounds hp _ := hp
  readData := header_readData
  writeData := header_writeData

/-- Every operation but a move from the packet keeps the header consistent. -/
theorem header_operation (op : Operation) (hmove : op ≠ .moveOut)
    (hops : ∀ q, op = .assign q → Kept q) : KeepsHeader op.apply := by
  have hpure : ∀ {α : Type} (a : α), KeepsHeader (pure a) := fun _ => Ensures.pure fun _ hp => hp
  have hdone : ∀ {α : Type} {m : PacketM α}, KeepsHeader m → KeepsHeader (do let _ ← m) :=
    fun hm => Ensures.bind hm fun _ => hpure ()
  cases op with
  | seek cursor type value => exact header_seek cursor type value
  | readData size whole => exact hdone (header_readData size whole)
  | writeData bytes whole => exact hdone (header_writeData bytes whole)
  | resize size => exact header_resize size
  | clear => exact header_clear
  | shrinkToFit => exact hpure ()
  | send socket net => exact hdone (header_send socket net)
  | sendTo inet address socket net => exact hdone (header_sendTo inet address socket net)
  | receive socket net => exact hdone (header_receive socket net)
  | receiveFrom inet socket net =>
    exact hdone (header_of_datagram fun p => Socket.receiveFrom_effect p inet)
  | moveOut => exact absurd rfl hmove
  | assign packet => exact Ensures.set fun _ _ => hops packet rfl

end Operations

/-! ## Whole runs -/

/-- What is known of a packet object: nothing of its buffer while it is moved from. -/
def Slot.Kept : Slot → Prop
  | .live p => p.Kept
  | .moved p => Sound (fun _ => True) p

/-- Every operation and every typed form keeps the header consistent. -/
theorem keeps_call {c : Call} (hmove : c ≠ .operation .moveOut)
    (hops : ∀ q ∈ c.operands, q.Kept) : KeepsHeader c.apply := by
  cases c with
  | operation op =>
    refine header_operation op (fun h => hmove (by rw [h])) ?_
    rintro q rfl
    exact hops (.live q) (List.mem_singleton.mpr rfl)
  | form f => exact header_stable.form f

theorem kept_of_returns {m : PacketM Unit} {p p' : Packet} (hm : KeepsHeader m) (hp : Kept p)
    (h : Returns m p p') : Kept p' := by
  have hend := hm.run p hp
  rcases h with hrun | ⟨q, pos, hrun, rfl⟩
  · rw [show m p = _ from hrun] at hend
    exact hend
  · rw [show m p = _ from hrun] at hend
    -- a read out of bounds goes on with any read cursor
    obtain ⟨hsound, hconsistent⟩ := hend rfl
    exact ⟨⟨hsound.inLimits, trivial, hsound.sendPos, hsound.receiving⟩,
      hconsistent.withReadPos pos⟩

theorem kept_of_use {s s' : Slot} {c : Call} (hs : s.Kept) (hops : ∀ q ∈ c.operands, q.Kept)
    (h : Slot.Use s c s') : s'.Kept := by
  cases h with
  | call hmove h => exact kept_of_returns (keeps_call hmove hops) hs h
  | moveOut => exact hs.1.movedFrom
  | @clear p p' h =>
    -- clearing does not look at what the move left
    have hrun := clear_run p
    rcases h with h | ⟨q, pos, h, -⟩
    · rw [hrun] at h
      cases h
      exact ⟨Sound.cleared readRange_anywhere hs, consistent_cleared p⟩
    · rw [hrun] at h
      cases h
  | @assign p q => exact hops (.live q) (List.mem_singleton.mpr rfl)

theorem kept_of_used {s : Slot} (hs : Used s) : s.Kept := by
  refine Generated.invariant ?_ ?_ hs
  · rintro _ ⟨p, hp, rfl⟩
    rw [constructed_iff.mp hp]
    exact ⟨⟨sound_fresh.inLimits, trivial, rfl, sound_fresh.receiving⟩,
      by simp [fresh], by simp [fresh], fresh_valid.consistent⟩
  · intro s c s' hkept hops h
    exact kept_of_use hkept hops h

/-- **The header.** After every step of a run in which nothing throws and no packet is used
between being moved from and being cleared or assigned, the buffer of a packet in use holds
between 2 and 65535 bytes, the write cursor stands in it, and its first two bytes are its
size less theirs. -/
theorem consistent_of_used {p : Packet} (hp : Used (.live p)) :
    (2 ≤ p.data.length ∧ p.data.length ≤ 65535) ∧
      (2 ≤ p.writePos ∧ p.writePos ≤ p.data.length) ∧ p.verifySize = true ∧
      p.data.take 2 = toBytes 2 (p.data.length - 2) := by
  obtain ⟨-, hlen, hpos, hheader⟩ := kept_of_used hp
  exact ⟨hlen, hpos, hheader, (p.verifySize_iff.mp hheader).2⟩

/-- Three bytes, written into a packet that was moved from and cleared. -/
theorem consistent_of_used_cleared :
    (2 ≤ 5 ∧ 5 ≤ 65535) ∧ ((2 : Int) ≤ 5 ∧ (5 : Int) ≤ 5) ∧
      verifySize { fresh with data := [3, 0, 7, 8, 9], writePos := 5 } = true ∧
      [3, 0] = toBytes 2 3 := by
  have hnew : Used (.live fresh) := .init ⟨fresh, constructed_iff.mpr rfl, rfl⟩
  have hmoved := hnew.step (by simp [Call.operands]) Slot.Use.moveOut
  have hcleared := hmoved.step (by simp [Call.operands]) (Slot.Use.clear (.inl rfl))
  exact consistent_of_used (hcleared.step (i := .operation (.writeData [7, 8, 9] true))
    (by simp [Call.operands]) (Slot.Use.call (by simp) (.inl rfl)))

end Sws.Packet
