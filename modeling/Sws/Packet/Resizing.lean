import Sws.Packet.Limits
import Sws.Packet.Valid

/-!
# Resizing

`resize` gives the buffer its new size, writes the header through a nested write, and seeks the
write cursor back to where it was.  The nested write needs room and the seek needs the cursor
inside, so a resize to the capacity and a resize below the write cursor throw when the buffer
has its new size already.  The read cursor is not looked at.

## Key Results

- `resizedTo_resized`: what a resize that returns has made of the packet.
- `resizes_iff`: for which sizes a resize returns, with a valid packet.
-/

namespace Sws.Packet

open Sws.Foundation

/-- A position inside a buffer of the given size, behind its header. -/
def Inside (size : ℕ) (pos : Int) : Prop := 2 ≤ pos ∧ pos ≤ size

/-- `q` is `p` with a buffer of the given size. -/
structure ResizedTo (p q : Packet) (size : ℕ) : Prop where
  /-- The buffer has the size. -/
  length_eq : q.data.length = size
  /-- Old bytes are kept as far as they fit, and new ones are zeros. -/
  payload_eq : q.data.drop 2 =
    (p.data.drop 2).take (size - 2) ++ List.replicate (size - p.data.length) 0
  /-- The header holds the new size. -/
  header_eq : q.data.take 2 = toBytes 2 (size - 2)
  /-- The cursors are inside, and stay where they are if they were. -/
  readPos : Inside size q.readPos ∧ (Inside size p.readPos → q.readPos = p.readPos)
  writePos : Inside size q.writePos ∧ (Inside size p.writePos → q.writePos = p.writePos)

/-- A resize to `n` bytes returns with the packet that it should. -/
def Resizes (p : Packet) (n : ℕ) : Prop :=
  ∃ q, (resize n).run p = .ok () q ∧ ResizedTo p q (clampSize n)

section Resize

variable {p : Packet}

/-- A buffer of at least a header that is cut or filled up, seen from behind the header. -/
theorem drop_takeD (p : Packet) (hp : 2 ≤ p.data.length) {size : ℕ} (hsize : 2 ≤ size) :
    (p.data.takeD size 0).drop 2 =
      (p.data.drop 2).take (size - 2) ++ List.replicate (size - p.data.length) 0 := by
  have hkept : 2 ≤ (p.data.take size).length := by
    rw [List.length_take]
    omega
  rw [takeD_eq_append, List.drop_append_of_le_length hkept, List.drop_take]

/-- What a resize makes of the bytes, wherever the cursors are. -/
theorem resized_bytes (hp : 2 ≤ p.data.length) (n : ℕ) :
    (p.resized n).data.drop 2 = (p.data.drop 2).take (clampSize n - 2) ++
        List.replicate (clampSize n - p.data.length) 0 ∧
      (p.resized n).data.take 2 = toBytes 2 (clampSize n - 2) := by
  have hclamp := clampSize_mem n
  constructor
  · show (stamped { p with data := p.data.takeD (clampSize n) 0 }).data.drop 2 = _
    rw [drop_stamped, drop_takeD p hp hclamp.1]
  · show (stamped { p with data := p.data.takeD (clampSize n) 0 }).data.take 2 = _
    rw [take_stamped, workSize_eq, List.takeD_length]

/-- A resize that keeps both cursors inside. -/
theorem resizedTo_resized (hp : 2 ≤ p.data.length) {n : ℕ} (hread : Inside (clampSize n) p.readPos)
    (hwrite : Inside (clampSize n) p.writePos) : ResizedTo p (p.resized n) (clampSize n) where
  length_eq := length_resized p n
  payload_eq := (resized_bytes hp n).1
  header_eq := (resized_bytes hp n).2
  readPos := ⟨hread, fun _ => rfl⟩
  writePos := ⟨hwrite, fun _ => rfl⟩

/-- A valid packet that has not outgrown the capacity. -/
theorem Valid.inLimits (hp : p.Valid) (hsize : p.data.length ≤ datagramSize) : p.InLimits := by
  have hwrite := hp.writePos
  exact ⟨hsize, by omega, by omega⟩

/-- **Resizing.** A resize returns, with a packet of the clamped size whose payload is kept and
whose cursors are inside, exactly when that size is below the capacity and not below a
cursor. -/
theorem resizes_iff (hp : p.Valid) (hsize : p.data.length ≤ datagramSize) (n : ℕ) :
    Resizes p n ↔ clampSize n < datagramSize ∧
      p.readPos ≤ clampSize n ∧ p.writePos ≤ clampSize n := by
  have hclamp := clampSize_mem n
  have hread := hp.readPos
  have hwrite := hp.writePos
  constructor
  · rintro ⟨q, hrun, hq⟩
    -- a run that returns has not met the two obstacles, so it ends with the resized packet
    have hreturns : clampSize n < datagramSize ∧ 2 ≤ p.writePos ∧ p.writePos ≤ clampSize n := by
      by_contra hout
      obtain ⟨e, q', hthrows, -⟩ := resize_throws (hp.inLimits hsize) n hout
      rw [hthrows] at hrun
      cases hrun
    have hbelow : n < datagramSize := by
      simp only [clampSize] at hreturns
      omega
    have hok := resize_ok n hbelow hreturns.2
    rw [hok] at hrun
    cases hrun
    exact ⟨hreturns.1, hq.readPos.1.2, hreturns.2.2⟩
  · rintro ⟨hbelow, hread', hwrite'⟩
    have hn : n < datagramSize := by
      simp only [clampSize] at hbelow
      omega
    exact ⟨_, resize_ok n hn ⟨hwrite.1, hwrite'⟩,
      resizedTo_resized (by omega) ⟨hread.1, hread'⟩ ⟨hwrite.1, hwrite'⟩⟩

end Resize

/-- A new packet grows by four bytes. -/
theorem resizes_iff_grows :
    Resizes fresh 6 ↔
      clampSize 6 < datagramSize ∧ fresh.readPos ≤ clampSize 6 ∧ fresh.writePos ≤ clampSize 6 :=
  resizes_iff fresh_valid (by decide) 6

/-- A packet cut below its write cursor: the resize throws, and the buffer is cut all the same. -/
theorem not_resizes_cut :
    (fresh.written [1, 2, 3, 4]).Valid ∧ (fresh.written [1, 2, 3, 4]).data.length ≤ datagramSize ∧
      (∃ e q, (resize 4).run (fresh.written [1, 2, 3, 4]) = .error e q ∧ Caught e ∧
        q.data.length = 4) ∧
      ¬Resizes (fresh.written [1, 2, 3, 4]) 4 := by
  have hvalid := written_valid [1, 2, 3, 4] fresh_valid
  have hsize : (fresh.written [1, 2, 3, 4]).data.length ≤ datagramSize := by
    rw [length_written]
    decide
  obtain ⟨e, q, hrun, hcaught, hq⟩ := resize_throws (hvalid.inLimits hsize) 4 (by decide)
  refine ⟨hvalid, hsize, ⟨e, q, hrun, hcaught, hq.length_eq⟩, ?_⟩
  rintro ⟨q', hrun', -⟩
  rw [hrun] at hrun'
  cases hrun'

end Sws.Packet
