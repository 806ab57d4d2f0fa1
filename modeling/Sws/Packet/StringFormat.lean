import Sws.Packet.FailedWrites

/-!
# The Wire Format of Strings

A string is its length and then its characters.  `write(const std::string&)` makes the two
writes as operands of a `+`, and the language leaves it open which of them comes first.  The
characters of an empty string are a write of nothing, which refers to the byte at the write cursor
all the same.

## Key Results

- `writeString_written`: what a string makes of the packet, in either order.
- `writesFormat_iff`: for which strings and packets the order makes no difference.
-/

namespace Sws.Packet

open Sws.Foundation

/-! ## Two writes in a row -/

section Writes

variable {p : Packet} {a b s : List UInt8}

/-- A packet that takes the sum of two sizes takes both. -/
theorem WritesWhole.left {m n : ℕ} (h : WritesWhole p (m + n)) : WritesWhole p m := by
  obtain ⟨hfull, hend, hless⟩ := h
  exact ⟨hfull, by omega, fun hlt => by have := hless hlt; omega⟩

theorem WritesWhole.right (h : WritesWhole p (a.length + b.length)) (hp : p.Valid) :
    WritesWhole (p.written a) b.length := by
  have hwrite := hp.writePos
  have hlen := length_written a p
  have hcursor : (p.written a).writePos = p.writePos + a.length := rfl
  obtain ⟨hfull, hend, hless⟩ := h
  refine ⟨by omega, by omega, fun hlt => ?_⟩
  have := hless (by omega)
  omega

/-- Two writes with a check of their sum are one write of both. -/
theorem writeBoth_ok (hp : p.Valid) (hlen : p.data.length < 2 ^ 62)
    (hfits : WritesWhole p (a.length + b.length)) (hfirst : ¬NoByte p a.length)
    (hsecond : ¬NoByte (p.written a) b.length) :
    (writeBoth a b).run p = .ok (a.length + b.length) (p.written (a ++ b)) := by
  have hlen' := length_written a p
  have hwrite := hp.writePos
  obtain ⟨-, hend, -⟩ := hfits.left
  simp only [datagramSize] at hend
  rw [writeBoth_run, writeData_whole_ok hp hlen hfits.left hfirst]
  simp only [writeData_whole_ok (written_valid a hp) (by omega) (hfits.right hp) hsecond, if_true,
    written_written a b hwrite]

/-- The bytes that the two writes of a string leave behind each other. -/
def encodeString : EvalOrder → List UInt8 → List UInt8
  | .leftFirst, s => lengthPrefix s ++ s
  | .rightFirst, s => s ++ lengthPrefix s

@[simp] theorem length_encodeString (order : EvalOrder) (s : List UInt8) :
    (encodeString order s).length = 2 + s.length := by
  cases order <;> simp [encodeString, Nat.add_comm]

/-- The bytes of the length that are written before the characters. -/
def lengthAhead : EvalOrder → ℕ
  | .leftFirst => 2
  | .rightFirst => 0

/-- The string has characters; or there is a byte for them to refer to when it is their turn. -/
def CharsInside (order : EvalOrder) (p : Packet) (s : List UInt8) : Prop :=
  s ≠ [] ∨ p.writePos + lengthAhead order < p.data.length

/-- The length of a string has bytes. -/
theorem not_noByte_lengthPrefix (p : Packet) (s : List UInt8) :
    ¬NoByte p (lengthPrefix s).length := by
  rintro ⟨hnone, -⟩
  rw [length_lengthPrefix] at hnone
  cases hnone

/-- A string is written as one block, whichever of its parts comes first. -/
theorem writeString_written (order : EvalOrder) (hp : p.Valid) (hlen : p.data.length < 2 ^ 62)
    (hs : s.length ≤ maxStringLength) (hfits : WritesWhole p (2 + s.length))
    (hchars : CharsInside order p s) :
    (writeString order s).run p = .ok (2 + s.length) (p.written (encodeString order s)) := by
  have hlength := length_lengthPrefix s
  have hbytes := not_noByte_lengthPrefix (s := s)
  have hlen' := length_written (lengthPrefix s) p
  have hcursor : (p.written (lengthPrefix s)).writePos = p.writePos + 2 := rfl
  have hwrite := hp.writePos
  rw [hlength] at hlen'
  rw [CharsInside, ← List.length_pos_iff] at hchars
  rw [writeString_run order hs]
  cases order with
  | leftFirst =>
    have hchars' : ¬NoByte (p.written (lengthPrefix s)) s.length := by
      rintro ⟨hnone, hend, -⟩
      simp only [lengthAhead] at hchars
      omega
    have hboth := writeBoth_ok (a := lengthPrefix s) (b := s) hp hlen (by rwa [hlength])
      (hbytes p) hchars'
    rwa [hlength] at hboth
  | rightFirst =>
    -- the characters find the write cursor where it was before the call
    have hchars' : ¬NoByte p s.length := by
      rintro ⟨hnone, hend, -⟩
      simp only [lengthAhead] at hchars
      omega
    have hboth := writeBoth_ok (a := s) (b := lengthPrefix s) hp hlen
      (by rwa [hlength, Nat.add_comm]) hchars' (hbytes _)
    rwa [hlength, Nat.add_comm] at hboth

end Writes

/-! ## The format -/

/-- `q` is `p` after the string was written at the write cursor, with the given result. -/
structure HoldsString (p : Packet) (s : List UInt8) (result : ℕ) (q : Packet) : Prop where
  result_eq : result = 2 + s.length
  /-- At the old write cursor lie the length and the characters. -/
  encoded : (q.data.drop p.writePos.toNat).take (2 + s.length) = lengthPrefix s ++ s
  writePos_eq : q.writePos = p.writePos + 2 + s.length
  /-- What lies in front of them is the same. -/
  front_eq : (q.data.drop 2).take (p.writePos.toNat - 2) =
    (p.data.drop 2).take (p.writePos.toNat - 2)
  /-- What lies behind them is the same. -/
  back_eq : q.data.drop (p.writePos.toNat + 2 + s.length) =
    p.data.drop (p.writePos.toNat + 2 + s.length)
  header : q.verifySize = true

/-- Written in the given order, the string has its format. -/
def WritesFormat (order : EvalOrder) (p : Packet) (s : List UInt8) : Prop :=
  ∃ result q, (writeString order s).run p = .ok result q ∧ HoldsString p s result q

section Format

variable {p : Packet} {s bytes : List UInt8}

/-- A block of the right size changes what it should; it only has to be the right one. -/
theorem holdsString_written_iff (hp : p.Valid) (hbytes : bytes.length = 2 + s.length) :
    HoldsString p s (2 + s.length) (p.written bytes) ↔ bytes = lengthPrefix s ++ s := by
  have hwrite := hp.writePos
  have hsplit : p.writePos.toNat = 2 + (p.writePos.toNat - 2) := by omega
  have hpayload : p.writePos.toNat - 2 ≤ (p.data.drop 2).length := by
    rw [List.length_drop]
    omega
  have hdrop : ∀ n, (p.written bytes).data.drop (2 + n) =
      (splice (p.data.drop 2) (p.writePos.toNat - 2) bytes).drop n := by
    intro n
    rw [← List.drop_drop, drop_written bytes hwrite]
  -- at the old cursor stands the block, and nothing else has changed
  have hencoded : ((p.written bytes).data.drop p.writePos.toNat).take (2 + s.length) = bytes := by
    rw [hsplit, hdrop, ← hbytes]
    exact take_drop_splice _ _ hpayload
  constructor
  · intro h
    rw [← hencoded]
    exact h.encoded
  · intro heq
    refine ⟨rfl, by rw [hencoded, heq], ?_, ?_, ?_, written_verifySize bytes p⟩
    · show p.writePos + bytes.length = _
      rw [hbytes, Nat.cast_add]
      omega
    · rw [drop_written bytes hwrite]
      exact take_splice _ _ (Nat.le_refl _) hpayload
    · have hend : p.writePos.toNat + 2 + s.length =
          2 + (p.writePos.toNat - 2 + bytes.length) := by omega
      rw [hend, hdrop, drop_splice_of_le _ _ hpayload (Nat.le_refl _), List.drop_drop]

/-- **The format of strings.** It does not depend on the order of the two writes exactly when the
packet is not full, the length and the characters give the same bytes either way round, and behind
the length of an empty string there is a byte of the packet. -/
theorem writesFormat_iff (hp : p.Valid) (hlen : p.data.length < 2 ^ 62)
    (hs : s.length ≤ maxStringLength) (hfits : p.writePos + 2 + s.length ≤ 65535) :
    (∀ order, WritesFormat order p s) ↔
      p.data.length ≠ datagramSize ∧ s ++ lengthPrefix s = lengthPrefix s ++ s ∧
        (s = [] → p.writePos + 2 < p.data.length) := by
  have hwrite := hp.writePos
  rcases eq_or_ne p.data.length datagramSize with hfull | hroom
  · -- a full packet takes nothing
    obtain ⟨e, hthrows⟩ := writeString_throws (s := s) hfull
    refine iff_of_false (fun h => ?_) (fun h => h.1 hfull)
    obtain ⟨result, q, hrun, -⟩ := h .leftFirst
    rw [hthrows] at hrun
    cases hrun
  have hwhole : WritesWhole p (2 + s.length) := by
    simp only [WritesWhole, datagramSize] at hroom ⊢
    omega
  by_cases hbyte : s = [] → p.writePos + 2 < p.data.length
  swap
  · -- with the length first the characters have no byte to refer to
    obtain ⟨rfl, hend⟩ := Classical.not_imp.mp hbyte
    refine iff_of_false (fun h => ?_) (fun h => hbyte h.2.2)
    obtain ⟨result, q, hrun, -⟩ := h .leftFirst
    simp only [List.length_nil] at hfits
    rw [writeString_outside hp (by simp only [datagramSize]; omega)
      (by simp only [datagramSize]; omega) (by omega)] at hrun
    cases hrun
  have hchars : ∀ order, CharsInside order p s := by
    intro order
    refine or_iff_not_imp_left.mpr fun hnil => ?_
    have hinside := hbyte (not_not.mp hnil)
    cases order <;> simp only [lengthAhead] <;> omega
  have horder : ∀ order, WritesFormat order p s ↔ encodeString order s = lengthPrefix s ++ s := by
    intro order
    have hrun := writeString_written order hp hlen hs hwhole (hchars order)
    rw [← holdsString_written_iff hp (length_encodeString order s)]
    constructor
    · rintro ⟨result, q, hrun', hholds⟩
      rw [hrun] at hrun'
      cases hrun'
      exact hholds
    · exact fun hholds => ⟨_, _, hrun, hholds⟩
  constructor
  · exact fun h => ⟨hroom, (horder .rightFirst).mp (h .rightFirst), hbyte⟩
  · rintro ⟨-, hcommute, -⟩ order
    rw [horder]
    cases order with
    | leftFirst => rfl
    | rightFirst => exact hcommute

/-- Two bytes that are the length of two bytes, in a new packet. -/
theorem writesFormat_iff_two :
    WritesFormat .leftFirst fresh [2, 0] ∧ WritesFormat .rightFirst fresh [2, 0] := by
  have hformat := (writesFormat_iff (s := [2, 0]) fresh_valid (by decide) (by decide)
    (by decide)).mpr (by decide)
  exact ⟨hformat .leftFirst, hformat .rightFirst⟩

/-- With the characters written first, the length of `hi` comes behind them. -/
theorem not_writesFormat :
    (writeString .rightFirst [104, 105]).run fresh =
      .ok 4 { data := [4, 0, 104, 105, 2, 0], readPos := 2, writePos := 6 } ∧
    ¬WritesFormat .rightFirst fresh [104, 105] := by
  refine ⟨rfl, ?_⟩
  rintro ⟨result, q, hrun, hholds⟩
  cases hrun
  exact absurd hholds.encoded (by decide)

end Format

end Sws.Packet
