import Sws.Packet.FailedReads

/-!
# The Bounds of a String's Buffer

The characters of a string are copied into a temporary buffer of just their number, and the
string is made of a pointer to it.  The constructor looks for the end of the text the pointer
points to, wherever that is.

## Key Results

- `scanned_le_iff`: how far the constructor looks.
- `staysInside_iff`: for which bytes a read of a string stays inside its buffers.
-/

namespace Sws.Packet

open Sws.Foundation

/-! ## Looking for the end -/

/-- The number of bytes, from the pointer on, that are looked at to find the end of the text:
those in front of the first NUL, and the NUL. -/
def scanned (memory : List UInt8) : ℕ := (memory.takeWhile (· != 0)).length + 1

/-- The search ends in the buffer if there is a NUL in it. -/
theorem scanned_le_iff (buffer beyond : List UInt8) :
    scanned (buffer ++ beyond) ≤ buffer.length ↔ 0 ∈ buffer := by
  induction buffer with
  | nil => simp [scanned]
  | cons b buffer ih =>
    simp only [scanned] at ih
    by_cases hb : b = 0
    · simp [scanned, hb]
    · have hne : (0 : UInt8) ≠ b := Ne.symm hb
      simp only [scanned, List.cons_append, List.takeWhile_cons, bne_iff_ne, ne_eq, hb,
        not_false_eq_true, if_true, List.length_cons, List.mem_cons, hne, false_or, ← ih]
      omega

/-! ## Reading a string -/

/-- A read of a string looks at the packet and at the temporary buffer, and at nothing else. -/
structure StaysInside (p : Packet) : Prop where
  /-- What lies behind the temporary buffer, if there is anything, makes no difference. -/
  same : ∀ beyond beyond', (readString beyond).run p = (readString beyond').run p
  defined : ∀ beyond u q, (readString beyond).run p ≠ .error (.undefined u) q
  /-- Where there is a temporary buffer, the end of the text is found in it. -/
  scan : 2 ≤ p.left → ¬CutShort p →
    ∀ beyond, scanned (p.characters ++ beyond) ≤ p.characters.length

section Bounds

variable {p : Packet}

/-- With a NUL in the buffer, the text is what lies in front of it. -/
theorem viewed_of_mem {s : List UInt8} (h : 0 ∈ s) (beyond : List UInt8) :
    viewed s beyond = s.takeWhile (· != 0) := by
  have hshort : (s.takeWhile (· != 0)).length ≠ s.length := by
    intro heq
    have hall := (List.takeWhile_prefix (p := (· != 0)) (l := s)).eq_of_length heq
    -- what is seen holds no NUL
    rw [← hall] at h
    simpa using List.mem_takeWhile_imp h
  rw [viewed, List.takeWhile_append, if_neg hshort, List.take_of_length_le]
  exact (List.takeWhile_prefix _).length_le

/-- A string with a NUL among its characters is made of what lies in front of it. -/
theorem readString_of_mem (hp : Readable p) (hsome : 2 ≤ p.left) (hcut : ¬CutShort p)
    (hnul : 0 ∈ p.characters) (beyond : List UInt8) :
    (readString beyond).run p =
      .ok (2 + p.characters.length, some (p.characters.takeWhile (· != 0)))
        ((p.advanced 2).advanced p.announcedLength.toNat) := by
  rw [readString_whole beyond hp hsome hcut,
    stringFromPointer_ok (List.mem_append_left beyond hnul), viewed_of_mem hnul]

/-- Where a read ends in the same way whatever lies behind the buffer. -/
theorem readString_ends (hp : Readable p)
    (h : (p.left < 2 ∨ CutShort p) ∨ 0 ∈ p.characters) :
    ∃ r, (∀ beyond, (readString beyond).run p = r) ∧ ∀ u q, r ≠ .error (.undefined u) q := by
  rcases Nat.lt_or_ge p.left 2 with hnone | hsome
  · exact ⟨_, fun beyond => readString_nothing beyond hp hnone, by simp⟩
  rcases Classical.em (CutShort p) with hcut | hcut
  · rcases readString_short hp hcut with hrun | ⟨e, hrun⟩
    · exact ⟨_, hrun, by simp⟩
    · exact ⟨_, hrun, by simp⟩
  · have hnul : 0 ∈ p.characters := by
      rcases h with (hnone | hcut') | hnul
      · omega
      · exact absurd hcut' hcut
      · exact hnul
    exact ⟨_, readString_of_mem hp hsome hcut hnul, by simp⟩

/-- **The bounds of a string's buffer.** A read of a string stays inside its buffers exactly when
no string is made, or one with a NUL among its characters. -/
theorem staysInside_iff (hp : Readable p) :
    StaysInside p ↔ (p.left < 2 ∨ CutShort p) ∨ 0 ∈ p.characters := by
  constructor
  · intro h
    rcases Nat.lt_or_ge p.left 2 with hnone | hsome
    · exact .inl (.inl hnone)
    rcases Classical.em (CutShort p) with hcut | hcut
    · exact .inl (.inr hcut)
    · exact .inr ((scanned_le_iff p.characters []).mp (h.scan hsome hcut []))
  · intro h
    obtain ⟨r, hrun, hdefined⟩ := readString_ends hp h
    refine ⟨fun beyond beyond' => ?_, fun beyond u q => ?_, fun hsome hcut beyond => ?_⟩
    · rw [hrun, hrun]
    · rw [hrun]
      exact hdefined u q
    · rcases h with (hnone | hcut') | hnul
      · omega
      · exact absurd hcut' hcut
      · exact (scanned_le_iff p.characters beyond).mpr hnul

/-- A packet with a string at the read cursor, with the given characters. -/
def holding (s : List UInt8) : Packet := { fresh.written (lengthPrefix s ++ s) with readPos := 2 }

/-- The characters of this string end with a NUL. -/
theorem staysInside_iff_nul : StaysInside (holding [104, 105, 0]) :=
  (staysInside_iff ⟨by decide, by decide⟩).mpr (.inr (by decide))

/-- The characters `hi` have no NUL among them: the end of the text is looked for behind them,
and if no memory is there, that is undefined. -/
theorem not_staysInside :
    (readString [0]).run (holding [104, 105]) =
      .ok (4, some [104, 105]) { holding [104, 105] with readPos := 6 } ∧
    (readString []).run (holding [104, 105]) =
      .error (.undefined .outOfBounds) { holding [104, 105] with readPos := 6 } ∧
    Readable (holding [104, 105]) ∧ ¬StaysInside (holding [104, 105]) := by
  have hreadable : Readable (holding [104, 105]) := ⟨by decide, by decide⟩
  refine ⟨rfl, rfl, hreadable, ?_⟩
  intro h
  exact h.defined [] .outOfBounds { holding [104, 105] with readPos := 6 } rfl

end Bounds

end Sws.Packet
