import Sws.Packet.Valid

/-!
# Capacity of a Packet

Three size tests guard a write: a full packet refuses everything, a write of the whole
buffer is refused when its end lies beyond `datagram_size`, and any other write is cut off
there.  All three let a write end exactly at `datagram_size`, and there the header update
meets a full buffer.  None of them looks for a byte to write: with the write cursor at the end, a
write of nothing refers to the byte behind the last one, which reads are careful not to do.

## Key Results

- `writesExactly_iff`: a write is exact unless it would have to reach the capacity, or to
  overwrite bytes of a full packet, or has neither a byte to write nor one to refer to.
-/

namespace Sws.Packet

open Sws.Foundation

/-- How many of `size` bytes a write up to the capacity takes. -/
def prescribed (p : Packet) (size : ℕ) (whole : Bool) : ℕ :=
  if p.writePos.toNat + size ≤ datagramSize then size
  else if whole then 0
  else datagramSize - p.writePos.toNat

/-- `p'` is `p` after `count` of the bytes were written, and nothing else. -/
structure Wrote (p : Packet) (bytes : List UInt8) (count : ℕ) (p' : Packet) : Prop where
  payload : p'.data.drop 2 =
    splice (p.data.drop 2) (p.writePos.toNat - 2) (bytes.take count)
  header : 2 ≤ p'.data.length ∧ p'.data.take 2 = toBytes 2 (p'.data.length - 2)
  writePos : p'.writePos = p.writePos + count
  frame : p' = { p with data := p'.data, writePos := p'.writePos }

/-- The write is exact up to the capacity: it does not throw, takes as many bytes as there is
room for, and a write of the whole that does not fit changes nothing. -/
def WritesExactly (p : Packet) (bytes : List UInt8) (whole : Bool) : Prop :=
  ∃ p', (writeData bytes whole).run p = .ok (p.prescribed bytes.length whole) p' ∧
    Wrote p bytes (p.prescribed bytes.length whole) p' ∧
    (whole = true → p.writePos.toNat + bytes.length > datagramSize → p' = p)

section

variable {p : Packet} {bytes : List UInt8} {whole : Bool}

/-- A write that takes nothing leaves a consistent packet as it was. -/
theorem Wrote.zero (h : p.verifySize = true) : Wrote p bytes 0 p where
  payload := by simp
  header := p.verifySize_iff.mp h
  writePos := by simp
  frame := rfl

theorem wrote_written (hp : p.Valid) (count : ℕ) (hcount : count ≤ bytes.length) :
    Wrote p bytes count (p.written (bytes.take count)) where
  payload := drop_written _ hp.writePos
  header := (verifySize_iff _).mp (written_verifySize ..)
  writePos := by
    show p.writePos + (bytes.take count).length = _
    rw [List.length_take, Nat.min_eq_left hcount]
  frame := rfl

/-- What the code takes of a write that is not refused is what it should take. -/
theorem room_eq_prescribed (h : ¬Refuses p bytes.length whole) :
    p.room bytes.length = p.prescribed bytes.length whole := by
  obtain ⟨-, hwhole⟩ := not_or.mp h
  simp only [room, prescribed]
  -- the two tests differ only for a write of the whole, which was not refused
  cases whole with
  | true =>
    have hfits : p.writePos.toNat + bytes.length ≤ datagramSize := by simpa using hwhole
    rw [if_pos hfits]; omega
  | false => split <;> simp <;> omega

/-- A refused write is exact when there was nothing to take. -/
theorem writesExactly_of_refuses (hp : p.Valid) (h : Refuses p bytes.length whole) :
    WritesExactly p bytes whole ↔ p.prescribed bytes.length whole = 0 := by
  rw [WritesExactly, writeData_refused h]
  -- the write returns 0, so it is exact if 0 is what it should return
  constructor
  · rintro ⟨p', hrun, -, -⟩
    exact (EStateM.Result.ok.inj hrun).1.symm
  · intro hzero
    rw [hzero]
    exact ⟨p, rfl, Wrote.zero hp.consistent, fun _ _ => rfl⟩

/-- With room left, only an empty write at the end has no byte to refer to. -/
theorem pointsOutside_iff_of_lt (hp : p.Valid) (hsize : p.data.length < datagramSize) :
    PointsOutside p bytes.length ↔ bytes = [] ∧ ¬p.writePos < p.data.length := by
  have hpos := hp.writePos
  rw [← List.length_eq_zero_iff]
  simp only [PointsOutside, room, datagramSize] at *
  omega

/-- A write that ends before the capacity is exact. -/
theorem writesExactly_of_room (hp : p.Valid) (h : ¬Refuses p bytes.length whole)
    (hsize : p.data.length < datagramSize) (hin : ¬PointsOutside p bytes.length)
    (hroom : p.writePos.toNat + p.prescribed bytes.length whole < datagramSize) :
    WritesExactly p bytes whole := by
  have hprescribed := room_eq_prescribed h
  have hcount : p.prescribed bytes.length whole ≤ bytes.length := by
    rw [← hprescribed, room]; omega
  have hrun := writeData_ok h hsize hp.writePos.1 hin (by rw [hprescribed]; exact hroom)
  rw [hprescribed] at hrun
  refine ⟨_, hrun, wrote_written hp _ hcount, fun hwhole hlong => ?_⟩
  exact absurd (Or.inr ⟨hwhole, hlong⟩) h

/-- **Capacity of a write.** On a valid packet a write is exact if and only if it has no byte
to take, or the packet is not full and the write ends before the capacity; a write of nothing also
has to find the write cursor on a byte of the packet, unless the packet is full and refuses it
first. -/
theorem writesExactly_iff (hp : p.Valid) (hsize : p.data.length ≤ datagramSize) :
    WritesExactly p bytes whole ↔
      (p.prescribed bytes.length whole = 0 ∨
        (p.data.length < datagramSize ∧
          p.writePos.toNat + p.prescribed bytes.length whole < datagramSize)) ∧
      (bytes = [] → p.data.length < datagramSize → p.writePos < p.data.length) := by
  have hpos := hp.writePos
  by_cases hrefuses : Refuses p bytes.length whole
  · rw [writesExactly_of_refuses hp hrefuses]
    constructor
    · refine fun h => ⟨.inl h, ?_⟩
      rintro rfl hlt
      -- a write of nothing is refused by a full packet only
      obtain ⟨-, hlong⟩ := hrefuses.resolve_left hlt.ne
      simp only [List.length_nil] at hlong
      omega
    · refine fun ⟨h, _⟩ => h.elim id fun ⟨hlt, _⟩ => ?_
      -- a packet that is not full refuses only a whole that does not fit
      obtain ⟨hwhole, hlong⟩ := hrefuses.resolve_left hlt.ne
      rw [prescribed, if_neg (by omega), if_pos hwhole]
  have hlt : p.data.length < datagramSize :=
    lt_of_le_of_ne hsize fun heq => hrefuses (.inl heq)
  have houtside : PointsOutside p bytes.length ↔ _ := pointsOutside_iff_of_lt hp hlt
  by_cases hout : PointsOutside p bytes.length
  · obtain ⟨hnone, hend⟩ := houtside.mp hout
    refine iff_of_false ?_ fun h => hend (h.2 hnone hlt)
    rintro ⟨p', hrun, -, -⟩
    rw [writeData_outside hrefuses (by omega) hout] at hrun
    cases hrun
  have hprescribed := room_eq_prescribed hrefuses
  have hend : p.writePos.toNat + p.room bytes.length ≤ datagramSize := by
    rw [room]; omega
  have hbyte : bytes = [] → p.data.length < datagramSize → p.writePos < p.data.length :=
    fun hnone _ => not_not.mp fun h => hout (houtside.mpr ⟨hnone, h⟩)
  by_cases hfills : p.writePos.toNat + p.room bytes.length = datagramSize
  · -- the header update throws, so the write is not exact
    have hthrows := writeData_fills hrefuses hsize ⟨hpos.1, by omega⟩ hout hfills
    constructor
    · rintro ⟨p', hrun, -, -⟩
      rw [hthrows] at hrun
      cases hrun
    · rintro ⟨h, -⟩
      rw [← hprescribed] at h
      omega
  · have hroom : p.writePos.toNat + p.prescribed bytes.length whole < datagramSize := by
      rw [← hprescribed]; omega
    exact ⟨fun _ => ⟨.inr ⟨hlt, hroom⟩, hbyte⟩,
      fun _ => writesExactly_of_room hp hrefuses hlt hout hroom⟩

/-- Writing one byte into a new packet. -/
theorem writesExactly_fresh_byte : WritesExactly fresh [7] true :=
  (writesExactly_iff fresh_valid (by decide)).mpr ⟨.inr (by decide), nofun⟩

/-- Filling a new packet exactly to the declared capacity throws. -/
theorem not_writesExactly_fill :
    fresh.Valid ∧ fresh.data.length ≤ datagramSize ∧
      ¬WritesExactly fresh (List.replicate 65534 0) true := by
  refine ⟨fresh_valid, by decide, ?_⟩
  rintro ⟨p', hrun, -, -⟩
  have hroom : fresh.room (List.replicate 65534 (0 : UInt8)).length = 65534 := by
    rw [List.length_replicate]; rfl
  have hrefuses : ¬Refuses fresh (List.replicate 65534 (0 : UInt8)).length true := by
    rw [List.length_replicate]; decide
  have hin : ¬PointsOutside fresh (List.replicate 65534 (0 : UInt8)).length := by
    rw [List.length_replicate]; decide
  rw [writeData_fills hrefuses (by decide) (by decide) hin (by rw [hroom]; rfl)] at hrun
  cases hrun

end

end Sws.Packet
