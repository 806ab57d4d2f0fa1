import Sws.Packet.StringCodec

/-!
# Reads That Fail

A primitive read looks at what is left before it copies anything, so a read that fails leaves
the packet and the variable as they were.  What is checked behind a primitive read is checked
too late: the range of a `bool`, and the length of a string, which is read before the
characters are found to be missing.

## Key Results

- `readData_whole`: the two ends of a primitive read.
- `readString_cases`: the ends of a string.
- `failedReads_iff`: for which forms of reading, and what bytes, a failure leaves everything as
  it was.
-/

namespace Sws.Packet

open Sws.Foundation

/-! ## Forms of reading -/

/-- The forms of reading.  `beyond` is what lies in memory behind the temporary buffer of a
string. -/
inductive ReadForm
  /-- `read_data(data, size, true)`. -/
  | readData (size : ℕ)
  | read (t : ScalarType)
  | extract (t : ScalarType)
  | readString (beyond : List UInt8)
  | extractString (beyond : List UInt8)

namespace ReadForm

/-- Carries the form out.  The result is the count that `read` returns; `>>` returns none. -/
def apply : ReadForm → ReadingM (Option ℕ)
  | readData size => do return some (← readDataTo size true)
  | read t => do return some (← readTo t)
  | extract t => do
    extractTo t
    return none
  | readString beyond => do return some (← readStringTo beyond)
  | extractString beyond => do
    extractStringTo beyond
    return none

/-- The form throws, or returns 0. -/
def Fails : EStateM.Result Fault Reading (Option ℕ) → Prop
  | .ok count _ => count = some 0
  | .error e _ => Caught e

end ReadForm

/-- What a failed read has to leave alone. -/
def untouched (r : Reading) : Int × List UInt8 × List UInt8 :=
  (r.packet.readPos, r.packet.data, r.dest)

/-! ## Primitive reads -/

/-- The number of bytes behind the read cursor. -/
def left (p : Packet) : ℕ := p.data.length - p.readPos.toNat

/-- The next `n` of them. -/
def front (p : Packet) (n : ℕ) : List UInt8 := (p.data.drop p.readPos.toNat).take n

/-- The packet after a read of `n` bytes. -/
def advanced (p : Packet) (n : ℕ) : Packet := { p with readPos := p.readPos + n }

/-- The read cursor stands in the payload or at its end. -/
structure Readable (p : Packet) : Prop where
  readPos : 2 ≤ p.readPos ∧ p.readPos ≤ p.data.length
  length_lt : p.data.length < 2 ^ 62

section Primitive

variable {p : Packet} {n : ℕ}

theorem length_front (hn : n ≤ p.left) : (p.front n).length = n := by
  rw [front, List.length_take, List.length_drop]
  exact Nat.min_eq_left hn

theorem Readable.advanced (hp : Readable p) (hn : n ≤ p.left) : Readable (p.advanced n) := by
  obtain ⟨hpos, hlen⟩ := hp
  refine ⟨?_, hlen⟩
  show 2 ≤ p.readPos + n ∧ p.readPos + n ≤ p.data.length
  rw [left] at hn
  omega

theorem Readable.left_advanced (hp : Readable p) (n : ℕ) : (p.advanced n).left = p.left - n := by
  have hpos := hp.readPos
  show p.data.length - (p.readPos + n).toNat = p.data.length - p.readPos.toNat - n
  omega

/-- A read that gives something moves the cursor. -/
theorem untouched_ne {q : Packet} {d d' : List UInt8} (h : q.readPos ≠ p.readPos) :
    untouched ⟨q, d'⟩ ≠ untouched ⟨p, d⟩ := by
  intro heq
  exact h (Prod.mk.inj heq).1

/-- A primitive read gives nothing, or all of its bytes. -/
theorem readData_whole (hp : Readable p) (size : ℕ) :
    ((size = 0 ∨ p.left < size) ∧ (readData size true).run p = .ok [] p) ∨
    ((0 < size ∧ size ≤ p.left) ∧ (readData size true).run p =
      .ok (p.front size) (p.advanced size)) := by
  obtain ⟨hpos, hlen⟩ := hp
  have hmax : 2 ≤ p.readPos ∧ p.readPos ≤ max p.data.length 2 := by omega
  have havailable : p.available size = min p.left size := rfl
  rcases Classical.em (size = 0 ∨ p.left < size) with hnone | hsome
  · refine .inl ⟨hnone, readData_nothing hmax hlen ?_⟩
    rw [havailable]
    exact hnone.imp (fun hzero => by omega) (fun hshort => ⟨rfl, by omega⟩)
  · have hall : p.available size = size := by
      rw [havailable]
      omega
    have hok : (readData size true).run p =
        .ok ((p.data.drop p.readPos.toNat).take (p.available size))
          { p with readPos := p.readPos + p.available size } :=
      readData_ok hmax hlen (by rw [hall]; omega)
    rw [hall] at hok
    exact .inr ⟨by omega, hok⟩

/-- The same into a variable. -/
theorem readDataTo_whole {r : Reading} (hr : Readable r.packet) (size : ℕ) :
    ((size = 0 ∨ r.packet.left < size) ∧ (readDataTo size true).run r = .ok 0 r) ∨
    ((0 < size ∧ size ≤ r.packet.left) ∧ (readDataTo size true).run r =
      .ok size ⟨r.packet.advanced size, splice r.dest 0 (r.packet.front size)⟩) := by
  rcases readData_whole hr size with ⟨hnone, hrun⟩ | ⟨hsome, hrun⟩
  · have hread : (fromPacket (readData size true)).run r = .ok [] r := zoom_run_of_ok hrun
    refine .inl ⟨hnone, ?_⟩
    rw [readDataTo, EStateM.run_bind, hread]
    show EStateM.Result.ok 0 { r with dest := splice r.dest 0 [] } = _
    rw [splice_nil]
  · have hread : (fromPacket (readData size true)).run r =
        .ok (r.packet.front size) ⟨r.packet.advanced size, r.dest⟩ := zoom_run_of_ok hrun
    refine .inr ⟨hsome, ?_⟩
    rw [readDataTo, EStateM.run_bind, hread]
    show EStateM.Result.ok (r.packet.front size).length _ = _
    rw [length_front hsome.2]

/-- A form that is one primitive read and looks at its count. -/
theorem primitive_rollsBack {f : ReadForm} {r : Reading} (hr : Readable r.packet) (size : ℕ)
    (after : ℕ → ReadingM (Option ℕ)) (happly : f.apply = readDataTo size true >>= after)
    (hsame : finalState ((after 0).run r) = r)
    (hdone : 0 < size → ∀ s, ¬ReadForm.Fails ((after size).run s)) :
    RollsBack ReadForm.Fails untouched f.apply r := by
  rcases readDataTo_whole hr size with ⟨-, hrun⟩ | ⟨⟨hpos, -⟩, hrun⟩
  · refine RollsBack.of_unchanged (r := (after 0).run r) ?_ (by rw [hsame])
    rw [happly, EStateM.run_bind, hrun]
  · have hafter : f.apply.run r = (after size).run
        ⟨r.packet.advanced size, splice r.dest 0 (r.packet.front size)⟩ := by
      rw [happly, EStateM.run_bind, hrun]
    exact RollsBack.of_succeeds hafter (hdone hpos _)

end Primitive

/-! ## Values with a range -/

section Bool

variable {p : Packet} {r : Reading}

/-- The next byte is there, and is no `bool`. -/
def OutOfRange (p : Packet) : Prop :=
  1 ≤ p.left ∧ 1 < (ScalarType.uint8.decode (p.front 1) : UInt8)

/-- The byte of a `bool` is missing, or is read and then checked. -/
theorem readByte_cases (hp : Readable p) :
    (p.left < 1 ∧ ∃ e, (readEnforced .uint8).run p = .error (.thrown e) p) ∨
    (1 ≤ p.left ∧ (readEnforced .uint8).run p =
      .ok (ScalarType.uint8.decode (p.front 1)) (p.advanced 1)) := by
  rcases readData_whole hp 1 with ⟨hnone, hrun⟩ | ⟨hsome, hrun⟩
  · refine .inl ⟨by omega, .logicError "Failed to read data from packet.", ?_⟩
    have hread : (readData (ScalarType.size .uint8) true).run p = .ok [] p := hrun
    simp only [readEnforced, EStateM.run_bind, hread, enforce_run]
    rfl
  · refine .inr ⟨hsome.2, ?_⟩
    have hread : (readData (ScalarType.size .uint8) true).run p =
        .ok (p.front 1) (p.advanced 1) := hrun
    have hlen : (p.front 1).length = ScalarType.size .uint8 := length_front hsome.2
    simp only [readEnforced, EStateM.run_bind, hread, enforce_run, hlen, if_true]
    rfl

/-- A byte that is no `bool` has been read when that is found out. -/
theorem bool_rollsBack_iff (hr : Readable r.packet) :
    RollsBack ReadForm.Fails untouched (ReadForm.extract .bool).apply r ↔
      ¬OutOfRange r.packet := by
  rcases readByte_cases hr with ⟨hnone, e, hrun⟩ | ⟨hsome, hrun⟩
  · have hread : (fromPacket (readEnforced .uint8)).run r = .error (.thrown e) r :=
      zoom_run_of_error hrun
    refine iff_of_true (RollsBack.of_unchanged (r := .error (.thrown e) r) ?_ rfl) ?_
    · simp only [ReadForm.apply, extractTo, EStateM.run_bind, hread]
    · exact fun hout => by have := hout.1; omega
  · have hread : (fromPacket (readEnforced .uint8)).run r =
        .ok (ScalarType.uint8.decode (r.packet.front 1)) ⟨r.packet.advanced 1, r.dest⟩ :=
      zoom_run_of_ok hrun
    -- the cursor is behind the byte, whatever the value
    have hmoved : (r.packet.advanced 1).readPos ≠ r.packet.readPos := by
      show r.packet.readPos + (1 : ℕ) ≠ r.packet.readPos
      omega
    rcases Classical.em ((ScalarType.uint8.decode (r.packet.front 1) : UInt8) ≤ 1) with hin | hin
    · refine iff_of_true (RollsBack.of_succeeds (r := .ok none ⟨r.packet.advanced 1,
        ScalarType.bool.encode ((ScalarType.uint8.decode (r.packet.front 1) : UInt8) == 1)⟩)
        ?_ ?_) ?_
      · simp only [ReadForm.apply, extractTo, EStateM.run_bind, hread, enforce_run, if_pos hin]
        rfl
      · intro hfails
        cases hfails
      · exact fun hout => absurd hout.2 (UInt8.not_lt.mpr hin)
    · refine iff_of_false (not_rollsBack (r := .error (.thrown (.logicError
        "bool value out of range")) ⟨r.packet.advanced 1, r.dest⟩) ?_ trivial
        (untouched_ne hmoved)) (not_not_intro ⟨hsome, UInt8.not_le.mp hin⟩)
      simp only [ReadForm.apply, extractTo, EStateM.run_bind, hread, enforce_run, if_neg hin]

end Bool

/-! ## Strings -/

section Strings

variable {p : Packet} (beyond : List UInt8)

/-- The length that a string at the read cursor has. -/
def announcedLength (p : Packet) : Int := (ScalarType.int16.decode (p.front 2) : Int16).toInt

/-- A length is there, but no character is announced, or not all of them are there. -/
def CutShort (p : Packet) : Prop :=
  2 ≤ p.left ∧ (p.announcedLength ≤ 0 ∨ p.left < 2 + p.announcedLength)

/-- The characters of such a string. -/
def characters (p : Packet) : List UInt8 := (p.advanced 2).front p.announcedLength.toNat

theorem length_characters (hp : Readable p) (hsome : 2 ≤ p.left) (hcut : ¬CutShort p) :
    p.characters.length = p.announcedLength.toNat ∧ 0 < p.announcedLength.toNat := by
  have hleft := hp.left_advanced 2
  simp only [CutShort, not_and_or, not_or] at hcut
  refine ⟨length_front ?_, ?_⟩ <;> omega

/-- The first of the two reads gives the length. -/
theorem readImpl_length (hp : Readable p) (hsome : 2 ≤ p.left) :
    (readImpl .int16).run p = .ok (p.front 2) (p.advanced 2) ∧ (p.front 2).length = 2 := by
  refine ⟨?_, length_front hsome⟩
  rcases readData_whole hp 2 with ⟨hnone, -⟩ | ⟨-, hrun⟩
  · omega
  · exact hrun

/-- If all characters are there, it is left to the constructor of the string. -/
theorem readString_whole (hp : Readable p) (hsome : 2 ≤ p.left) (hcut : ¬CutShort p) :
    (readString beyond).run p =
      match (stringFromPointer (p.characters ++ beyond) 0 p.characters.length).run
          ((p.advanced 2).advanced p.announcedLength.toNat) with
      | .ok t q => .ok (2 + p.characters.length, some t) q
      | .error e q => .error e q := by
  obtain ⟨hlength, htwo⟩ := readImpl_length hp hsome
  obtain ⟨hlen, hpos⟩ := length_characters hp hsome hcut
  have hsize : (ScalarType.int16.decode (p.front 2) : Int16).toInt = p.announcedLength := rfl
  have hread : ¬(2 : ℕ) = 0 := by decide
  have hnonneg : 0 ≤ p.announcedLength := by omega
  have hnonempty : ¬p.characters.length = 0 := by omega
  -- nothing is missing, and the second read is not refused
  have hchars : (readData p.announcedLength.toNat true).run (p.advanced 2) =
      .ok p.characters ((p.advanced 2).advanced p.announcedLength.toNat) := by
    rcases readData_whole (hp.advanced hsome) p.announcedLength.toNat with ⟨hshort, -⟩ | ⟨-, hrun⟩
    · have hleft := hp.left_advanced 2
      simp only [CutShort, not_and_or, not_or] at hcut
      omega
    · exact hrun
  simp only [readString, EStateM.run_bind, hlength, htwo, hread, if_false, hsize,
    enforce_run, if_pos hnonneg, hchars, hnonempty]
  cases (stringFromPointer (p.characters ++ beyond) 0 p.characters.length).run
    ((p.advanced 2).advanced p.announcedLength.toNat) <;> rfl

/-- If not, it is as if the memory behind the buffer were not there. -/
theorem readString_short (hp : Readable p) (hcut : CutShort p) :
    (∀ beyond, (readString beyond).run p = .ok (0, none) (p.advanced 2)) ∨
    ∃ e, ∀ beyond, (readString beyond).run p = .error (.thrown e) (p.advanced 2) := by
  obtain ⟨hsome, hcut⟩ := hcut
  obtain ⟨hlength, htwo⟩ := readImpl_length hp hsome
  have hleft := hp.left_advanced 2
  have hsize : (ScalarType.int16.decode (p.front 2) : Int16).toInt = p.announcedLength := rfl
  have hread : ¬(2 : ℕ) = 0 := by decide
  rcases lt_or_ge p.announcedLength 0 with hneg | hnonneg
  · -- a negative length
    refine .inr ⟨.logicError "Malformed string.", fun beyond => ?_⟩
    simp only [readString, EStateM.run_bind, hlength, htwo, hread, if_false, hsize,
      enforce_run, if_neg (not_le.mpr hneg)]
  · -- no characters
    refine .inl fun beyond => ?_
    rcases readData_whole (hp.advanced hsome) p.announcedLength.toNat with ⟨-, hchars⟩ | ⟨hall, -⟩
    · simp only [readString, EStateM.run_bind, hlength, htwo, hread, if_false, hsize,
        enforce_run, if_pos hnonneg, hchars]
      rfl
    · omega

/-- Without a length nothing is read at all. -/
theorem readString_nothing (hp : Readable p) (hnone : p.left < 2) :
    (readString beyond).run p = .ok (0, none) p := by
  rcases readData_whole hp 2 with ⟨-, hrun⟩ | ⟨hsome, -⟩
  · have hlength : (readImpl .int16).run p = .ok [] p := hrun
    simp only [readString, EStateM.run_bind, hlength]
    rfl
  · omega

/-- A string has no length, or the length is read and does not lead to a string, or there is a
string. -/
theorem readString_cases (hp : Readable p) :
    (p.left < 2 ∧ (readString beyond).run p = .ok (0, none) p) ∨
    (CutShort p ∧ ((readString beyond).run p = .ok (0, none) (p.advanced 2) ∨
      ∃ e, (readString beyond).run p = .error (.thrown e) (p.advanced 2))) ∨
    ((2 ≤ p.left ∧ ¬CutShort p) ∧
      ((∃ count s q, 0 < count ∧ (readString beyond).run p = .ok (count, some s) q) ∨
        ∃ q, (readString beyond).run p = .error (.undefined .outOfBounds) q)) := by
  rcases Nat.lt_or_ge p.left 2 with hnone | hsome
  · exact .inl ⟨hnone, readString_nothing beyond hp hnone⟩
  rcases Classical.em (CutShort p) with hcut | hcut
  · refine .inr (.inl ⟨hcut, ?_⟩)
    rcases readString_short hp hcut with hrun | ⟨e, hrun⟩
    · exact .inl (hrun beyond)
    · exact .inr ⟨e, hrun beyond⟩
  · have hrun := readString_whole beyond hp hsome hcut
    refine .inr (.inr ⟨⟨hsome, hcut⟩, ?_⟩)
    -- what the constructor makes of the characters is a string, or undefined
    rcases Classical.em (0 ∈ p.characters ++ beyond) with hnul | hnul
    · rw [stringFromPointer_ok hnul] at hrun
      exact .inl ⟨_, _, _, by omega, hrun⟩
    · rw [stringFromPointer_outOfBounds hnul] at hrun
      exact .inr ⟨_, hrun⟩

variable {beyond} in
theorem readStringTo_ok {r : Reading} {count : ℕ} {data : Option (List UInt8)} {q : Packet}
    (hrun : (readString beyond).run r.packet = .ok (count, data) q) :
    (readStringTo beyond).run r = .ok count ⟨q, data.getD r.dest⟩ := by
  have hread : (fromPacket (readString beyond)).run r = .ok (count, data) ⟨q, r.dest⟩ :=
    zoom_run_of_ok hrun
  simp only [readStringTo, EStateM.run_bind, hread]
  rfl

variable {beyond} in
theorem readStringTo_error {r : Reading} {e : Fault} {q : Packet}
    (hrun : (readString beyond).run r.packet = .error e q) :
    (readStringTo beyond).run r = .error e ⟨q, r.dest⟩ := by
  have hread : (fromPacket (readString beyond)).run r = .error e ⟨q, r.dest⟩ :=
    zoom_run_of_error hrun
  simp only [readStringTo, EStateM.run_bind, hread]

/-- A form that reads a string, and fails if that returns 0. -/
theorem readString_rollsBack_iff {f : ReadForm} {r : Reading} (hr : Readable r.packet)
    (after : ℕ → ReadingM (Option ℕ)) (happly : f.apply = readStringTo beyond >>= after)
    (hfails : ∀ s, ReadForm.Fails ((after 0).run s))
    (hsame : ∀ s, finalState ((after 0).run s) = s)
    (hdone : ∀ count s, 0 < count → ¬ReadForm.Fails ((after count).run s)) :
    RollsBack ReadForm.Fails untouched f.apply r ↔ ¬CutShort r.packet := by
  have hmoved : (r.packet.advanced 2).readPos ≠ r.packet.readPos := by
    show r.packet.readPos + (2 : ℕ) ≠ r.packet.readPos
    omega
  rcases readString_cases beyond hr with
    ⟨hnone, hrun⟩ | ⟨hcut, hrun | ⟨e, hrun⟩⟩ |
    ⟨⟨-, hwhole⟩, ⟨count, s, q, hcount, hrun⟩ | ⟨q, hrun⟩⟩
  · -- not even a length
    refine iff_of_true (RollsBack.of_unchanged (r := (after 0).run r) ?_ (by rw [hsame])) ?_
    · rw [happly, EStateM.run_bind, readStringTo_ok hrun]
      rfl
    · exact fun hcut => by have := hcut.1; omega
  · refine iff_of_false (not_rollsBack (r := (after 0).run ⟨r.packet.advanced 2, r.dest⟩) ?_
      (hfails _) ?_) (not_not_intro hcut)
    · rw [happly, EStateM.run_bind, readStringTo_ok hrun]
      rfl
    · rw [hsame]
      exact untouched_ne hmoved
  · refine iff_of_false (not_rollsBack (r := .error (.thrown e) ⟨r.packet.advanced 2, r.dest⟩) ?_
      trivial (untouched_ne hmoved)) (not_not_intro hcut)
    rw [happly, EStateM.run_bind, readStringTo_error hrun]
  · refine iff_of_true (RollsBack.of_succeeds (r := (after count).run ⟨q, s⟩) ?_
      (hdone count _ hcount)) hwhole
    rw [happly, EStateM.run_bind, readStringTo_ok hrun]
    rfl
  · -- undefined behaviour is neither an exception nor a count
    refine iff_of_true (RollsBack.of_succeeds (r := .error (.undefined .outOfBounds) ⟨q, r.dest⟩)
      ?_ id) hwhole
    rw [happly, EStateM.run_bind, readStringTo_error hrun]

end Strings

/-! ## All forms -/

/-- Where a failure of the form leaves a trace. -/
def ReadForm.Consumes (p : Packet) : ReadForm → Prop
  | .extract .bool => OutOfRange p
  | .readString _ | .extractString _ => CutShort p
  | _ => False

section Forms

variable {r : Reading}

/-- What `>>` does with a value that it reads into the variable itself. -/
theorem enforced_rollsBack {t : ScalarType} (hr : Readable r.packet)
    (happly : extractTo t = readEnforcedTo t) :
    RollsBack ReadForm.Fails untouched (ReadForm.extract t).apply r := by
  have hpos := t.size_pos
  refine primitive_rollsBack hr t.size (fun n => do
    enforce (n = t.size) "Failed to read data from packet."
    return none) ?_ ?_ ?_
  · show (extractTo t >>= fun _ => pure none) = _
    rw [happly]
    exact bind_assoc _ _ _
  · rw [EStateM.run_bind, enforce_run, if_neg (show ¬0 = t.size by omega)]
    rfl
  · intro _ s
    rw [EStateM.run_bind, enforce_run, if_pos rfl]
    intro hfails
    cases hfails

/-- **Failed reads.** Exactly where it does not consume its bytes, a form of reading that throws
or returns 0 leaves the read cursor, the buffer and the variable as they were. -/
theorem failedReads_iff (hr : Readable r.packet) (f : ReadForm) :
    RollsBack ReadForm.Fails untouched f.apply r ↔ ¬f.Consumes r.packet := by
  have hcount : ∀ n : ℕ, 0 < n → ∀ s, ¬ReadForm.Fails ((pure (some n) : ReadingM _).run s) := by
    intro n hn s hfails
    have hzero := Option.some.inj hfails
    omega
  cases f with
  | readData size =>
    exact iff_of_true (primitive_rollsBack hr size (fun n => pure (some n)) rfl rfl
      (hcount size)) id
  | read t =>
    exact iff_of_true (primitive_rollsBack hr t.size (fun n => pure (some n)) rfl rfl
      (hcount t.size)) id
  | extract t =>
    cases t with
    -- the one scalar that is checked after it was read
    | bool => exact bool_rollsBack_iff hr
    | char | int8 | uint8 | int16 | uint16 | int32 | uint32 | int64 | uint64 | float | double =>
      exact iff_of_true (enforced_rollsBack hr rfl) id
  | readString beyond =>
    exact readString_rollsBack_iff beyond hr (fun n => pure (some n)) rfl (fun _ => rfl)
      (fun _ => rfl) fun count s hpos => hcount count hpos s
  | extractString beyond =>
    refine readString_rollsBack_iff beyond hr (fun n => do
      enforce (n ≠ 0) "Failed to read string from packet."
      return none) ?_ (fun _ => trivial) (fun _ => rfl) ?_
    · exact bind_assoc _ _ _
    · intro count s hpos
      rw [EStateM.run_bind, enforce_run, if_pos (by omega)]
      intro hfails
      cases hfails

end Forms

/-- A packet with the payload FE FF, which no string has for a length. -/
def malformed : Packet := { data := [2, 0, 0xFE, 0xFF], readPos := 2, writePos := 4 }

/-- A value of four bytes is not there. -/
theorem failedReads_iff_short :
    RollsBack ReadForm.Fails untouched (ReadForm.extract .int32).apply ⟨malformed, [9, 9, 9, 9]⟩ ↔
      ¬(ReadForm.extract .int32).Consumes malformed :=
  failedReads_iff (r := ⟨malformed, [9, 9, 9, 9]⟩) ⟨by decide, by decide⟩ (.extract .int32)

/-- The negative length of a string has been read when it is found to be negative. -/
theorem not_rollsBack_malformed :
    Readable malformed ∧
      ¬RollsBack ReadForm.Fails untouched (ReadForm.extractString []).apply ⟨malformed, [9]⟩ := by
  refine ⟨⟨by decide, by decide⟩, ?_⟩
  refine not_rollsBack (r := .error (.thrown (.logicError "Malformed string."))
    ⟨malformed.advanced 2, [9]⟩) rfl trivial ?_
  decide

end Sws.Packet
