import Mathlib.Data.List.TakeWhile
import Sws.Packet.RoundTrip

/-!
# Strings in Packets

A string is written as a signed 16-bit length and its characters.  Reading it back copies the
characters into a temporary buffer and makes a `std::string` of a pointer to it, a position
and a count, which is the constructor that views the pointer as NUL-terminated text.

## Key Results

- `writeString_ok`, `writeString_throws`: the write, below the capacity and at it.
- `readString_of_prefixed`: the read of a string that lies behind the read cursor.
- `stringRoundTrips_iff`: which strings survive.
-/

namespace Sws.Packet

open Sws.Foundation

/-! ## The encoding -/

/-- The length in front of the characters. -/
def lengthPrefix (s : List UInt8) : List UInt8 := ScalarType.int16.encode (Int16.ofNat s.length)

@[simp] theorem length_lengthPrefix (s : List UInt8) : (lengthPrefix s).length = 2 :=
  ScalarType.length_encode ..

/-- Up to the longest string the length survives its 16 bits with a sign. -/
theorem decode_lengthPrefix {s : List UInt8} (hs : s.length ≤ maxStringLength) :
    (ScalarType.int16.decode (lengthPrefix s)).toInt = s.length := by
  rw [lengthPrefix, ScalarType.decode_encode]
  exact Int16.toInt_ofNat_of_lt (by simp only [maxStringLength] at hs; omega)

/-! ## Writing -/

section Write

variable {p : Packet} {s : List UInt8}

/-- A string that ends below the capacity is written as one block.  Behind the length of an empty
one there has to be a byte that its characters can refer to. -/
theorem writeString_ok (hp : p.Valid) (hlen : p.data.length < datagramSize)
    (hs : s.length ≤ maxStringLength) (hfits : p.writePos + 2 + s.length < datagramSize)
    (hbyte : 0 < s.length ∨ p.writePos + 2 < p.data.length) :
    (writeString .leftFirst s).run p =
      .ok (2 + s.length) (p.written (lengthPrefix s ++ s)) := by
  have hwrite := hp.writePos
  have hlen' := length_written (lengthPrefix s) p
  have hcursor : (p.written (lengthPrefix s)).writePos = p.writePos + 2 := by
    show p.writePos + (lengthPrefix s).length = _
    rw [length_lengthPrefix]; rfl
  rw [length_lengthPrefix] at hlen'
  -- the length first, then the characters behind it
  have hpre : (writeImpl .int16 (Int16.ofNat s.length)).run p =
      .ok 2 (p.written (lengthPrefix s)) :=
    writeData_written _ _ hlen hwrite.1
      (by rw [ScalarType.length_encode]; simp only [ScalarType.size]; omega)
      (.inl (ScalarType.length_encode_pos _ _))
  have hchars := writeData_written s true
    (p := p.written (lengthPrefix s)) (by rw [hlen']; omega) (by rw [hcursor]; omega)
    (by rw [hcursor]; omega) (by rw [hcursor, hlen']; omega)
  have hsum : 2 + s.length = ScalarType.int16.size + s.length := rfl
  simp only [writeString, EStateM.run_bind, enforce_run, hs, if_true, hpre, hchars,
    EStateM.run_pure, hsum, written_written _ _ hwrite]

/-- Otherwise the length is written, and the characters refer to a byte behind it. -/
theorem writeString_outside (hp : p.Valid) (hlen : p.data.length < datagramSize)
    (hfits : p.writePos + 2 < datagramSize) (hend : p.data.length ≤ p.writePos + 2) :
    (writeString .leftFirst []).run p =
      .error (.undefined .outOfBounds) (p.written (lengthPrefix [])) := by
  have hwrite := hp.writePos
  have hlen' := length_written (lengthPrefix []) p
  have hcursor : (p.written (lengthPrefix [])).writePos = p.writePos + 2 := rfl
  rw [length_lengthPrefix] at hlen'
  simp only [datagramSize] at hlen hfits
  have hpre : (writeImpl .int16 (Int16.ofNat ([] : List UInt8).length)).run p =
      .ok 2 (p.written (lengthPrefix [])) :=
    writeData_written _ _ hlen hwrite.1
      (by rw [ScalarType.length_encode]; simp only [ScalarType.size, datagramSize]; omega)
      (.inl (ScalarType.length_encode_pos _ _))
  -- behind the length there is no byte, and none is to be written
  have hchars : (writeData [] true).run (p.written (lengthPrefix [])) =
      .error (.undefined .outOfBounds) ((p.written (lengthPrefix [])).makeRoom 0) := by
    refine writeData_outside ?_ (by simp only [datagramSize]; omega) ⟨Nat.min_zero _, by omega⟩
    rintro (hfull | ⟨-, hlong⟩)
    · simp only [datagramSize] at hfull
      omega
    · simp only [List.length_nil, datagramSize] at hlong
      omega
  rw [makeRoom_eq_self (by omega)] at hchars
  simp only [writeString, EStateM.run_bind, enforce_run, List.length_nil, Nat.zero_le, if_true]
  rw [List.length_nil] at hpre
  simp only [hpre, hchars]

/-- A full packet takes neither the length nor the characters. -/
theorem writeString_throws (hfull : p.data.length = datagramSize) :
    ∃ e, (writeString .leftFirst s).run p = .error e p := by
  have hrefused : ∀ bytes, (writeData bytes true).run p = .ok 0 p :=
    fun _ => writeData_refused (.inl hfull)
  by_cases hs : s.length ≤ maxStringLength
  · -- nothing was written, which is less than the size of the length
    have hshort : ¬0 = ScalarType.int16.size + s.length := by simp only [ScalarType.size]; omega
    simp only [writeString, EStateM.run_bind, enforce_run, hs, if_true, writeImpl, hrefused,
      EStateM.run_pure, Nat.add_zero, hshort, if_false]
    exact ⟨_, rfl⟩
  · simp only [writeString, EStateM.run_bind, enforce_run, hs, if_false]
    exact ⟨_, rfl⟩

end Write

/-! ## Making a string of the temporary buffer -/

section FromPointer

variable {σ : Type} {s beyond : List UInt8}

/-- The text the constructor sees: up to the first NUL in the buffer or behind it. -/
def viewed (s beyond : List UInt8) : List UInt8 :=
  ((s ++ beyond).takeWhile (· != 0)).take s.length

theorem stringFromPointer_ok (h : 0 ∈ s ++ beyond) (t : σ) :
    (stringFromPointer (s ++ beyond) 0 s.length).run t = .ok (viewed s beyond) t := by
  simp only [stringFromPointer, h, not_true_eq_false, if_false]
  rfl

theorem stringFromPointer_outOfBounds (h : 0 ∉ s ++ beyond) (t : σ) :
    (stringFromPointer (s ++ beyond) 0 s.length).run t = .error (.undefined .outOfBounds) t := by
  simp only [stringFromPointer, h, not_false_eq_true, if_true]
  rfl

/-- Only text without a NUL is seen as a whole. -/
theorem viewed_eq_iff (s beyond : List UInt8) : viewed s beyond = s ↔ 0 ∉ s := by
  constructor
  · intro h hmem
    rw [← h] at hmem
    -- what is seen holds no NUL
    have hnot := List.mem_takeWhile_imp (List.mem_of_mem_take hmem)
    simp at hnot
  · intro h
    -- all of the text is taken before the first NUL comes
    have hall : ∀ b ∈ s, (b != 0) = true := fun b hb => bne_iff_ne.mpr fun h0 => h (h0 ▸ hb)
    rw [viewed, List.takeWhile_append_of_pos hall, List.take_left]

end FromPointer

/-! ## Reading -/

section Read

variable {p : Packet} {s beyond : List UInt8}

/-- The packet with the read cursor behind a string that begins at `pos`. -/
def skippedFrom (p : Packet) (pos : Int) (s : List UInt8) : Packet :=
  { p with readPos := pos + 2 + s.length }

/-- The reads of the length and of the characters, where the string is not empty. -/
theorem readString_of_prefixed (hs : s.length ≤ maxStringLength) (hne : s ≠ [])
    (hpos : 2 ≤ p.readPos ∧ p.readPos ≤ p.data.length) (hlen : p.data.length < 2 ^ 62)
    (hpre : lengthPrefix s ++ s <+: p.data.drop p.readPos.toNat) :
    (readString beyond).run p =
      match (stringFromPointer (s ++ beyond) 0 s.length).run (p.skippedFrom p.readPos s) with
      | .ok t q => .ok (2 + s.length, some t) q
      | .error e q => .error e q := by
  have hle := hpre.length_le
  rw [List.length_append, List.length_drop, length_lengthPrefix] at hle
  have hsize : (readImpl .int16).run p =
      .ok (lengthPrefix s) { p with readPos := p.readPos + 2 } :=
    readData_of_prefixed _ _ hpos hlen ((List.prefix_append _ _).trans hpre)
      (List.length_pos_iff.mp (by rw [length_lengthPrefix]; decide))
  -- the characters stand behind the length
  have hrest : s <+: p.data.drop (p.readPos + 2).toNat := by
    obtain ⟨tail, htail⟩ := hpre
    have hnat : (p.readPos + 2).toNat = p.readPos.toNat + (lengthPrefix s).length := by
      rw [length_lengthPrefix]; omega
    rw [hnat, ← List.drop_drop, ← htail, List.append_assoc, List.drop_left]
    exact List.prefix_append _ _
  have hchars : (readData s.length true).run { p with readPos := p.readPos + 2 } =
      .ok s (p.skippedFrom p.readPos s) :=
    readData_of_prefixed (p := { p with readPos := p.readPos + 2 }) _ _
      (by show 2 ≤ p.readPos + 2 ∧ p.readPos + 2 ≤ p.data.length; omega) hlen hrest hne
  have hlong : ¬s.length = 0 := fun h => hne (List.length_eq_zero_iff.mp h)
  have htwo : ¬(2 : ℕ) = 0 := by decide
  simp only [readString, EStateM.run_bind, hsize, length_lengthPrefix, htwo, if_false,
    decode_lengthPrefix hs, enforce_run, Int.natCast_nonneg, if_true, Int.toNat_natCast, hchars,
    hlong]
  cases (stringFromPointer (s ++ beyond) 0 s.length).run (p.skippedFrom p.readPos s) <;> rfl

/-- An empty string is not read: that there is nothing to copy counts as a failure. -/
theorem readString_empty (hpos : 2 ≤ p.readPos ∧ p.readPos ≤ p.data.length)
    (hlen : p.data.length < 2 ^ 62) (hpre : lengthPrefix [] <+: p.data.drop p.readPos.toNat) :
    (readString beyond).run p = .ok (0, none) { p with readPos := p.readPos + 2 } := by
  have hle := hpre.length_le
  rw [List.length_drop, length_lengthPrefix] at hle
  have hsize : (readImpl .int16).run p =
      .ok (lengthPrefix []) { p with readPos := p.readPos + 2 } :=
    readData_of_prefixed _ _ hpos hlen hpre
      (List.length_pos_iff.mp (by rw [length_lengthPrefix]; decide))
  have hchars : (readData 0 true).run { p with readPos := p.readPos + 2 } =
      .ok [] { p with readPos := p.readPos + 2 } :=
    readData_nothing (by
      show 2 ≤ p.readPos + 2 ∧ p.readPos + 2 ≤ max p.data.length 2
      omega) hlen (.inl (Nat.min_zero _))
  have htwo : ¬(2 : ℕ) = 0 := by decide
  have hzero : (ScalarType.int16.decode (lengthPrefix [])).toInt = 0 :=
    decode_lengthPrefix (Nat.zero_le _)
  simp only [readString, EStateM.run_bind, hsize, length_lengthPrefix, htwo, if_false, hzero,
    enforce_run, Int.le_refl, if_true, Int.toNat_zero, hchars, List.length_nil]
  rfl

/-- `>>` is the read, which must not return 0. -/
theorem extractString_run (beyond : List UInt8) (p : Packet) :
    (extractString beyond).run p =
      match (readString beyond).run p with
      | .ok (count, data) q =>
        if count ≠ 0 then .ok data q
        else .error (.thrown (.logicError "Failed to read string from packet.")) q
      | .error e q => .error e q := by
  rw [extractString, EStateM.run_bind]
  cases (readString beyond).run p with
  | error e q => rfl
  | ok a q =>
    simp only [EStateM.run_bind, enforce_run]
    split_ifs <;> rfl

end Read

/-! ## Round trips -/

/-- After writing the string and placing the read cursor where it was written, reading gives
it back, counts all its bytes and ends right behind it; and so does `>>`. -/
def StringRoundTrips (p : Packet) (s beyond : List UInt8) : Prop :=
  ∃ count q r, (writeString .leftFirst s).run p = .ok count q ∧
    (seek .read .fromStart (Int64.ofInt (p.tell .write))).run q = .ok () r ∧
    (readString beyond).run r = .ok (2 + s.length, some s) (q.skippedFrom p.writePos s) ∧
    (extractString beyond).run r = .ok (some s) (q.skippedFrom p.writePos s)

section RoundTrip

variable {p : Packet} {s beyond : List UInt8}

/-- Placing the read cursor where a write began. -/
theorem seek_read_written (hp : p.Valid) (hlen : p.data.length < 2 ^ 62) {bytes : List UInt8}
    (hfits : p.writePos.toNat + bytes.length < 2 ^ 62) :
    (seek .read .fromStart (Int64.ofInt (p.tell .write))).run (p.written bytes) =
      .ok () { p.written bytes with readPos := p.writePos } := by
  have hwrite := hp.writePos
  have hread := hp.readPos
  have hlen' := length_written bytes p
  have htarget := toInt_tell_write (p := p) (by omega)
  have hws : (p.written bytes).workSize = (p.written bytes).data.length - 2 := workSize_eq _
  have hcursor : (p.written bytes).readPos = p.readPos := rfl
  have hseek := seekImpl_ok (p.written bytes).workSize .fromStart
    (Int64.ofInt (p.tell .write)) (p.written bytes).readPos (by omega)
    (by omega) (by rw [seekTarget, htarget]; omega) (by rw [seekTarget, htarget]; omega)
  rw [seek_read_of_ok hseek, seekTarget, htarget, Int.sub_add_cancel]

/-- The packet after the write, with the read cursor where the string begins. -/
def rewound (p : Packet) (s : List UInt8) : Packet :=
  { p.written (lengthPrefix s ++ s) with readPos := p.writePos }

@[simp] theorem readPos_rewound : (p.rewound s).readPos = p.writePos := rfl

/-- Below the capacity the round trip is that of the read from where the string begins. -/
theorem readsBack_iff (hp : p.Valid) (hlen : p.data.length < datagramSize)
    (hs : s.length ≤ maxStringLength) (hfits : p.writePos + 2 + s.length < datagramSize)
    (hbyte : 0 < s.length ∨ p.writePos + 2 < p.data.length) :
    StringRoundTrips p s beyond ↔ (readString beyond).run (p.rewound s) =
      .ok (2 + s.length, some s) ((p.rewound s).skippedFrom p.writePos s) := by
  have hwrite := hp.writePos
  have hrun := writeString_ok hp hlen hs hfits hbyte
  have hseek : (seek .read .fromStart (Int64.ofInt (p.tell .write))).run
      (p.written (lengthPrefix s ++ s)) = .ok () (p.rewound s) :=
    seek_read_written hp (by simp only [datagramSize] at hlen; omega)
      (by rw [List.length_append, length_lengthPrefix]; simp only [datagramSize] at hfits; omega)
  constructor
  · rintro ⟨count, q, r, hwritten, hsought, hread, -⟩
    rw [hrun] at hwritten
    cases hwritten
    rw [hseek] at hsought
    cases hsought
    exact hread
  · intro hread
    -- `operator>>` reads the same, and its count is not 0
    refine ⟨_, _, _, hrun, hseek, hread, ?_⟩
    rw [extractString_run, hread]
    exact if_pos (by omega)

/-- The string lies behind the read cursor. -/
theorem prefix_rewound (hp : p.Valid) :
    lengthPrefix s ++ s <+: (p.rewound s).data.drop (p.rewound s).readPos.toNat :=
  prefix_written _ hp.writePos

theorem readPos_rewound_mem (hp : p.Valid) :
    2 ≤ (p.rewound s).readPos ∧ (p.rewound s).readPos ≤ (p.rewound s).data.length := by
  have hwrite := hp.writePos
  have hlen := length_written (lengthPrefix s ++ s) p
  show 2 ≤ p.writePos ∧ p.writePos ≤ (p.written (lengthPrefix s ++ s)).data.length
  omega

theorem length_rewound (hp : p.Valid) (hlen : p.data.length < datagramSize)
    (hfits : p.writePos + 2 + s.length < datagramSize) :
    (p.rewound s).data.length < 2 ^ 62 := by
  have hwrite := hp.writePos
  simp only [datagramSize] at hlen hfits
  show (p.written (lengthPrefix s ++ s)).data.length < 2 ^ 62
  rw [length_written, List.length_append, length_lengthPrefix]
  omega

/-- The empty string is not written, or not read. -/
theorem not_stringRoundTrips_empty (hp : p.Valid) (hlen : p.data.length < datagramSize)
    (hfits : p.writePos + 2 < datagramSize) : ¬StringRoundTrips p [] beyond := by
  rcases Int.lt_or_le (p.writePos + 2) p.data.length with hbyte | hend
  · have hfits' : p.writePos + 2 + ([] : List UInt8).length < datagramSize := by
      rw [List.length_nil]
      omega
    -- reading an empty string returns 0
    have hpre := prefix_rewound (s := []) hp
    rw [List.append_nil] at hpre
    rw [readsBack_iff hp hlen (Nat.zero_le _) hfits' (.inr hbyte),
      readString_empty (readPos_rewound_mem hp) (length_rewound hp hlen hfits') hpre]
    simp
  · rintro ⟨count, q, r, hrun, -⟩
    rw [writeString_outside hp hlen hfits hend] at hrun
    cases hrun

/-- **Strings.** A string makes the round trip exactly when the packet it is written to is not
full, it is not empty and holds no NUL, and a NUL lies somewhere behind the temporary buffer. -/
theorem stringRoundTrips_iff (hp : p.Valid) (hsize : p.data.length ≤ datagramSize)
    (hs : s.length ≤ maxStringLength) (hfits : p.writePos + 2 + s.length ≤ 65535) :
    StringRoundTrips p s beyond ↔
      p.data.length < datagramSize ∧ s ≠ [] ∧ 0 ∉ s ∧ 0 ∈ beyond := by
  have hwrite := hp.writePos
  by_cases hfull : p.data.length = datagramSize
  · -- a full packet takes nothing
    obtain ⟨e, hthrows⟩ := writeString_throws (s := s) hfull
    constructor
    · rintro ⟨count, q, r, hrun, -⟩
      rw [hthrows] at hrun
      cases hrun
    · rintro ⟨hlt, -⟩
      omega
  have hlt : p.data.length < datagramSize := by omega
  have hfits' : p.writePos + 2 + s.length < datagramSize := by simp only [datagramSize]; omega
  have hpos := readPos_rewound_mem (s := s) hp
  have hlen := length_rewound hp hlt hfits'
  have hpre := prefix_rewound (s := s) hp
  by_cases hne : s = []
  · subst hne
    rw [List.length_nil] at hfits'
    refine iff_of_false (not_stringRoundTrips_empty hp hlt (by omega)) ?_
    rintro ⟨-, hsome, -⟩
    exact hsome rfl
  rw [readsBack_iff hp hlt hs hfits' (.inl (List.length_pos_iff.mpr hne)),
    readString_of_prefixed hs hne hpos hlen hpre]
  by_cases hmem : 0 ∈ s ++ beyond
  · rw [stringFromPointer_ok hmem]
    have hview := viewed_eq_iff s beyond
    rw [List.mem_append] at hmem
    constructor
    · intro hrun
      have hnul := hview.mp (by simpa using hrun)
      exact ⟨hlt, hne, hnul, hmem.resolve_left hnul⟩
    · rintro ⟨-, -, hnul, -⟩
      simp [hview.mpr hnul]
  · -- the constructor runs behind the buffer
    rw [stringFromPointer_outOfBounds hmem]
    constructor
    · intro hrun
      cases hrun
    · rintro ⟨-, -, -, hbeyond⟩
      exact absurd (List.mem_append_right s hbeyond) hmem

/-- Two letters, in a new packet. -/
theorem stringRoundTrips_fresh : StringRoundTrips fresh [104, 105] [0] :=
  (stringRoundTrips_iff fresh_valid (by decide) (by decide) (by decide)).mpr (by decide)

/-- In a new packet, neither the empty string nor one with a NUL in it survives: the first is
not written as a whole, and of the second only what precedes the NUL is read. -/
theorem not_stringRoundTrips :
    ¬StringRoundTrips fresh [] [0] ∧ ¬StringRoundTrips fresh [97, 0, 98] [0] := by
  constructor
  · rintro ⟨count, q, r, hrun, -⟩
    cases hrun
  · rw [readsBack_iff fresh_valid (by decide) (by decide) (by decide) (by decide)]
    have hread : (readString [0]).run (fresh.rewound [97, 0, 98]) = .ok (5, some [97])
        { fresh.rewound [97, 0, 98] with readPos := 7 } := rfl
    rw [hread]
    intro h
    cases h

end RoundTrip

end Sws.Packet
