import Sws.Packet.StringCodec

/-!
# Writes That Fail

A primitive write tests the capacity before it copies anything, so what it refuses leaves no
trace.  Two kinds of failure come later: the header update of a write that reaches the
capacity exactly, and the check that a string was written as a whole, which looks at the sum
of two writes when both are over.

## Key Results

- `writeData_whole`: the ends of a primitive write.
- `writeBoth_rollsBack_iff`: two primitive writes with a check of the sum.
- `failedWrites_iff`: for which forms of writing, and where, a failure leaves the packet as it
  was.
-/

namespace Sws.Packet

open Sws.Foundation

/-! ## Forms of writing -/

/-- The forms of writing a source that is not the packet itself. -/
inductive WriteForm
  /-- `write_data(data, size, true)`. -/
  | writeData (bytes : List UInt8)
  | write (t : ScalarType) (v : t.Val)
  | insert (t : ScalarType) (v : t.Val)
  | writeString (order : EvalOrder) (s : List UInt8)
  | insertString (order : EvalOrder) (s : List UInt8)
  | writePacket (packet : Packet)
  | insertPacket (packet : Packet)

namespace WriteForm

/-- Carries the form out.  The result is the count that `write` returns; `<<` returns none. -/
def apply : WriteForm → PacketM (Option ℕ)
  | writeData bytes => do return some (← Packet.writeData bytes true)
  | write t v => do return some (← Packet.write t v)
  | insert t v => do
    Packet.insert t v
    return none
  | writeString order s => do return some (← Packet.writeString order s)
  | insertString order s => do
    Packet.insertString order s
    return none
  | writePacket packet => do return some (← Packet.writePacket packet)
  | insertPacket packet => do
    Packet.insertPacket packet
    return none

/-- There is something to write. -/
def HasSource : WriteForm → Prop
  | writeData bytes => bytes ≠ []
  | write _ _ | insert _ _ => True
  | writeString _ s | insertString _ s => s ≠ []
  | writePacket packet | insertPacket packet => packet.empty = false

/-- The form throws, or returns 0 although there is something to write. -/
def Fails (f : WriteForm) : EStateM.Result Fault Packet (Option ℕ) → Prop
  | .ok count _ => count = some 0 ∧ f.HasSource
  | .error e _ => Caught e

end WriteForm

/-- What a failed write has to leave alone. -/
def contents (p : Packet) : List UInt8 × Int × Int := (p.data, p.readPos, p.writePos)

/-! ## Primitive writes -/

/-- A write of `size` bytes that would reach the capacity exactly. -/
def Fills (p : Packet) (size : ℕ) : Prop :=
  p.data.length < datagramSize ∧ p.writePos + size = datagramSize

/-- A write of `size` bytes that has none to write, and none to refer to either, since the write
cursor stands behind the last byte of a packet that is not full. -/
def NoByte (p : Packet) (size : ℕ) : Prop :=
  size = 0 ∧ p.writePos = p.data.length ∧ p.data.length < datagramSize

section Primitive

variable {p : Packet}

/-- A write of `size` bytes that is neither refused nor fills the packet.  A buffer larger than
the capacity, which the class does not let grow, takes what ends below the capacity. -/
def WritesWhole (p : Packet) (size : ℕ) : Prop :=
  p.data.length ≠ datagramSize ∧ p.writePos + size ≤ datagramSize ∧
    (p.data.length < datagramSize → p.writePos + size < datagramSize)

theorem writeData_whole_ok (hp : p.Valid) (hlen : p.data.length < 2 ^ 62) {bytes : List UInt8}
    (hfits : WritesWhole p bytes.length) (hbyte : ¬NoByte p bytes.length) :
    (writeData bytes true).run p = .ok bytes.length (p.written bytes) := by
  have hwrite := hp.writePos
  obtain ⟨hfull, hend, hless⟩ := hfits
  have hrefuses : ¬Refuses p bytes.length true := by
    rintro (h | ⟨-, h⟩) <;> omega
  have hroom : p.room bytes.length = bytes.length := by rw [room]; omega
  have hin : ¬PointsOutside p bytes.length := by
    simp only [PointsOutside, NoByte, hroom] at hbyte ⊢
    omega
  have hcopied := length_copyIn bytes p
  have hcursor := writePos_copyIn bytes p
  rw [writeData, writeDataWith_copies hrefuses (by omega) hin, hroom, List.take_length,
    if_pos (by omega), updateSize_ok (by omega) (by simp only [datagramSize] at hend; omega)
      (by omega), written, hcursor]

theorem refuses_iff (hp : p.Valid) {size : ℕ} :
    Refuses p size true ↔ p.data.length = datagramSize ∨ datagramSize < p.writePos + size := by
  have hwrite := hp.writePos
  simp only [Refuses, true_and]
  omega

/-- A write without a byte to write or to refer to is not refused. -/
theorem writeData_noByte (hp : p.Valid) (hnone : NoByte p 0) :
    (writeData [] true).run p = .error (.undefined .outOfBounds) p := by
  have hwrite := hp.writePos
  obtain ⟨-, hend, hlt⟩ := hnone
  have hrefuses : ¬Refuses p ([] : List UInt8).length true := by
    rintro (h | ⟨-, h⟩)
    · omega
    · rw [List.length_nil] at h
      omega
  have hrun := writeData_outside hrefuses (by omega) ⟨Nat.min_zero _, by omega⟩
  rwa [makeRoom_eq_self (by omega)] at hrun

/-- A primitive write is refused, or fills the packet and throws, or has no byte to refer to, or
takes all of its bytes. -/
theorem writeData_whole (hp : p.Valid) (hlen : p.data.length < 2 ^ 62) (bytes : List UInt8) :
    (Refuses p bytes.length true ∧ (writeData bytes true).run p = .ok 0 p) ∨
    (Fills p bytes.length ∧
      ∃ q, (writeData bytes true).run p = .error writeFailed q ∧ q.writePos = 0) ∨
    (NoByte p bytes.length ∧ (writeData bytes true).run p = .error (.undefined .outOfBounds) p) ∨
    (WritesWhole p bytes.length ∧ ¬NoByte p bytes.length ∧
      (writeData bytes true).run p = .ok bytes.length (p.written bytes)) := by
  have hwrite := hp.writePos
  rcases Classical.em (Refuses p bytes.length true) with hrefuses | hrefuses
  · exact .inl ⟨hrefuses, writeData_refused hrefuses⟩
  rcases Classical.em (Fills p bytes.length) with hfills | hfills
  · -- the copy is made before the header update throws
    obtain ⟨hlt, hend⟩ := hfills
    have hroom : p.room bytes.length = bytes.length := by rw [room]; omega
    have hin : ¬PointsOutside p bytes.length := not_pointsOutside (by omega) (by omega)
    have hthrows := writeData_fills hrefuses hlt.le ⟨hwrite.1, by omega⟩ hin (by omega)
    exact .inr (.inl ⟨⟨hlt, hend⟩, _, hthrows, rfl⟩)
  rcases Classical.em (NoByte p bytes.length) with hnone | hbyte
  · have hnil := List.length_eq_zero_iff.mp hnone.1
    have hrun := writeData_noByte hp ⟨rfl, hnone.2⟩
    rw [← hnil] at hrun
    exact .inr (.inr (.inl ⟨hnone, hrun⟩))
  · have hfits : WritesWhole p bytes.length := by
      simp only [Refuses, Fills, WritesWhole, true_and] at *
      omega
    exact .inr (.inr (.inr ⟨hfits, hbyte, writeData_whole_ok hp hlen hfits hbyte⟩))

/-- An end of the write that has moved the write cursor has left a trace. -/
theorem contents_ne {q : Packet} (h : q.writePos ≠ p.writePos) : contents q ≠ contents p := by
  intro heq
  exact h (Prod.mk.inj (Prod.mk.inj heq).2).2

/-- A write that fills the packet is not refused, and no other write is left. -/
theorem not_fills_of_refuses {size : ℕ} (h : Refuses p size true) (hp : p.Valid) :
    ¬Fills p size := by
  have hwrite := hp.writePos
  rintro ⟨hlt, hfills⟩
  rcases h with hfull | ⟨-, hlong⟩ <;> omega

/-- Nothing fits behind the write cursor only if the packet is full. -/
theorem not_fills_zero (hp : p.Valid) : ¬Fills p 0 := by
  have hwrite := hp.writePos
  rintro ⟨hlt, hfills⟩
  omega

theorem written_moves {bytes : List UInt8} (p : Packet) (h : 0 < bytes.length) :
    (p.written bytes).writePos ≠ p.writePos := by
  show p.writePos + bytes.length ≠ p.writePos
  omega

variable {f : WriteForm}

/-- A form that is one primitive write and looks at its count. -/
theorem primitive_rollsBack_iff (hp : p.Valid) (hlen : p.data.length < 2 ^ 62)
    (bytes : List UInt8) (after : ℕ → PacketM (Option ℕ))
    (happly : f.apply = writeData bytes true >>= after)
    (hsame : ∀ n, finalState ((after n).run p) = p)
    (hdone : ∀ q, ¬f.Fails ((after bytes.length).run q)) :
    RollsBack f.Fails contents f.apply p ↔ ¬Fills p bytes.length := by
  rcases writeData_whole hp hlen bytes with
    ⟨hrefuses, hrun⟩ | ⟨hfills, q, hrun, hzero⟩ | ⟨⟨hnone, -⟩, hrun⟩ | ⟨⟨-, -, hless⟩, -, hrun⟩
  · -- what comes after a refused write does not touch the packet
    refine iff_of_true ?_ (not_fills_of_refuses hrefuses hp)
    refine RollsBack.of_unchanged (r := (after 0).run p) ?_ (by rw [hsame])
    rw [happly, EStateM.run_bind, hrun]
  · refine iff_of_false ?_ (not_not_intro hfills)
    have hwrite := hp.writePos
    refine not_rollsBack (r := .error writeFailed q) ?_ trivial (contents_ne ?_)
    · rw [happly, EStateM.run_bind, hrun]
    · show q.writePos ≠ p.writePos
      omega
  · -- undefined behaviour is no failure that a caller could see
    refine iff_of_true (RollsBack.of_succeeds (r := .error (.undefined .outOfBounds) p) ?_ id) ?_
    · rw [happly, EStateM.run_bind, hrun]
    · rw [hnone]
      exact not_fills_zero hp
  · refine iff_of_true ?_ ?_
    · refine RollsBack.of_succeeds (r := (after bytes.length).run (p.written bytes)) ?_ (hdone _)
      rw [happly, EStateM.run_bind, hrun]
    · rintro ⟨hlt, hfills⟩
      have hnotFills := hless hlt
      omega

end Primitive

/-! ## Two writes and a check of their sum -/

/-- The two writes that `write(const std::string&)` makes, in one order or the other. -/
def writeBoth (a b : List UInt8) : PacketM ℕ := do
  let m ← writeData a true
  let n ← writeData b true
  enforce (m + n = a.length + b.length) "Failed to write whole string to packet."
  return m + n

/-- Where a failure of two writes in a row leaves a trace: the first fills the packet; or it is
refused and the second is not; or it is made and the second is refused or fills the packet. -/
def SpoilsBoth (p : Packet) (a b : ℕ) : Prop :=
  p.data.length ≠ datagramSize ∧
    (Fills p a ∨
      (datagramSize < p.writePos + a ∧ 0 < b ∧ p.writePos + b ≤ datagramSize) ∨
      (p.writePos + a ≤ datagramSize ∧
        (Fills p (a + b) ∨ (0 < a ∧ datagramSize < p.writePos + a + b))))

/-- The run throws, or gives 0 where there was something to write. -/
def CountFails (source : Prop) : EStateM.Result Fault Packet ℕ → Prop
  | .ok count _ => count = 0 ∧ source
  | .error e _ => Caught e

section Both

variable {p : Packet} {a b : List UInt8} {source : Prop}

/-- The message of a string that was not written as a whole. -/
abbrev notWhole : Fault := .thrown (.logicError "Failed to write whole string to packet.")

theorem writeBoth_run (a b : List UInt8) (p : Packet) :
    (writeBoth a b).run p =
      match (writeData a true).run p with
      | .ok m q =>
        match (writeData b true).run q with
        | .ok n r => if m + n = a.length + b.length then .ok (m + n) r else .error notWhole r
        | .error e r => .error e r
      | .error e q => .error e q := by
  simp only [writeBoth, EStateM.run_bind]
  cases (writeData a true).run p with
  | error e q => rfl
  | ok m q =>
    simp only
    cases (writeData b true).run q with
    | error e r => rfl
    | ok n r =>
      simp only [enforce_run]
      split_ifs <;> rfl

/-- The sum falls short of the two sizes. -/
theorem writeBoth_short {m n : ℕ} {q r : Packet} (ha : (writeData a true).run p = .ok m q)
    (hb : (writeData b true).run q = .ok n r) (hshort : m + n ≠ a.length + b.length) :
    (writeBoth a b).run p = .error notWhole r := by
  rw [writeBoth_run, ha]
  simp only [hb, if_neg hshort]

/-- The second write has no byte to refer to, which no caller sees. -/
theorem writeBoth_undefined {m : ℕ} {q : Packet} (ha : (writeData a true).run p = .ok m q)
    (hb : (writeData b true).run q = .error (.undefined .outOfBounds) q) :
    RollsBack (CountFails source) contents (writeBoth a b) p := by
  refine RollsBack.of_succeeds (r := .error (.undefined .outOfBounds) q) ?_ id
  rw [writeBoth_run, ha]
  simp only [hb]

/-- The second of two writes, when the first has been refused. -/
theorem writeBoth_refused (hp : p.Valid) (hlen : p.data.length < 2 ^ 62)
    (hsome : 0 < a.length) (hrefuses : Refuses p a.length true) :
    RollsBack (CountFails source) contents (writeBoth a b) p ↔
      ¬SpoilsBoth p a.length b.length := by
  have hwrite := hp.writePos
  have hfirst := writeData_refused hrefuses
  rw [refuses_iff hp] at hrefuses
  rcases writeData_whole hp hlen b with
    ⟨hrefuses', hrun⟩ | ⟨⟨hlt, hfills⟩, q, hrun, hzero⟩ | ⟨⟨hnone, hend⟩, hrun⟩ |
      ⟨⟨hfull, hend, hless⟩, -, hrun⟩
  · have hboth := writeBoth_short hfirst hrun (by omega)
    refine iff_of_true (RollsBack.of_unchanged hboth rfl) ?_
    -- a packet that refuses both, and is not full, has no room for either
    rw [refuses_iff hp] at hrefuses'
    simp only [SpoilsBoth, Fills]
    omega
  · refine iff_of_false (not_rollsBack (r := .error writeFailed q) ?_ trivial (contents_ne ?_)) ?_
    · rw [writeBoth_run, hfirst]
      simp only [hrun]
    · show q.writePos ≠ p.writePos
      omega
    · exact not_not_intro ⟨hlt.ne, .inr (.inl ⟨by omega, by omega, by omega⟩)⟩
  · refine iff_of_true (writeBoth_undefined hfirst hrun) ?_
    simp only [SpoilsBoth, Fills]
    omega
  · have hboth := writeBoth_short hfirst hrun (by omega)
    have hlong := hrefuses.resolve_left hfull
    rcases Nat.eq_zero_or_pos b.length with hnone | hsome'
    · -- a second write of nothing leaves nothing either
      obtain rfl := List.length_eq_zero_iff.mp hnone
      refine iff_of_true (RollsBack.of_unchanged hboth ?_) ?_
      · rw [written_nil hp]
        rfl
      · simp only [SpoilsBoth, Fills, List.length_nil]
        omega
    · refine iff_of_false (not_rollsBack hboth trivial (contents_ne ?_)) ?_
      · exact written_moves p hsome'
      · exact not_not_intro ⟨hfull, .inr (.inl ⟨hlong, hsome', hend⟩)⟩

/-- The second of two writes, when the first has been made. -/
theorem writeBoth_made (hp : p.Valid) (hlen : p.data.length < 2 ^ 62)
    (hfits : WritesWhole p a.length) (hbyte : ¬NoByte p a.length)
    (hsome : 0 < a.length + b.length) :
    RollsBack (CountFails source) contents (writeBoth a b) p ↔
      ¬SpoilsBoth p a.length b.length := by
  have hwrite := hp.writePos
  have hfirst := writeData_whole_ok hp hlen hfits hbyte
  obtain ⟨hfull, hend, hless⟩ := hfits
  have hlen' := length_written a p
  have hcursor : (p.written a).writePos = p.writePos + a.length := rfl
  have hsize : (p.written a).data.length < 2 ^ 62 := by
    simp only [datagramSize] at hend
    omega
  have hfull' : (p.written a).data.length ≠ datagramSize := by omega
  rcases writeData_whole (written_valid a hp) hsize b with
    ⟨hrefuses, hrun⟩ | ⟨⟨hlt, hfills⟩, q, hrun, hzero⟩ | ⟨⟨hnone, -⟩, hrun⟩ |
      ⟨⟨-, hend', hless'⟩, -, hrun⟩
  · have hlong := ((refuses_iff (written_valid a hp)).mp hrefuses).resolve_left hfull'
    have hboth := writeBoth_short hfirst hrun (by omega)
    rcases Nat.eq_zero_or_pos a.length with hnone | hsome'
    · obtain rfl := List.length_eq_zero_iff.mp hnone
      refine iff_of_true (RollsBack.of_unchanged hboth ?_) ?_
      · rw [written_nil hp]
        rfl
      · simp only [SpoilsBoth, Fills, List.length_nil] at *
        omega
    · -- the first of the writes stays behind
      refine iff_of_false (not_rollsBack hboth trivial (contents_ne ?_)) ?_
      · exact written_moves p hsome'
      · exact not_not_intro ⟨hfull, .inr (.inr ⟨hend, .inr ⟨hsome', by omega⟩⟩)⟩
  · refine iff_of_false (not_rollsBack (r := .error writeFailed q) ?_ trivial (contents_ne ?_)) ?_
    · rw [writeBoth_run, hfirst]
      simp only [hrun]
    · show q.writePos ≠ p.writePos
      omega
    · exact not_not_intro ⟨hfull, .inr (.inr ⟨hend, .inl ⟨by omega, by omega⟩⟩)⟩
  · refine iff_of_true (writeBoth_undefined hfirst hrun) ?_
    simp only [SpoilsBoth, Fills]
    omega
  · refine iff_of_true (RollsBack.of_succeeds (r := .ok (a.length + b.length)
      ((p.written a).written b)) ?_ ?_) ?_
    · rw [writeBoth_run, hfirst]
      simp only [hrun, if_true]
    · rintro ⟨hzero, -⟩
      omega
    · simp only [SpoilsBoth, Fills]
      omega

/-- **Two writes** with a check of their sum. -/
theorem writeBoth_rollsBack_iff (hp : p.Valid) (hlen : p.data.length < 2 ^ 62)
    (hsome : 0 < a.length + b.length) :
    RollsBack (CountFails source) contents (writeBoth a b) p ↔
      ¬(SpoilsBoth p a.length b.length ∧ ¬NoByte p a.length) := by
  have hwrite := hp.writePos
  rcases writeData_whole hp hlen a with
    ⟨hrefuses, hrun⟩ | ⟨⟨hlt, hfills⟩, q, hrun, hzero⟩ | ⟨hnone, hrun⟩ | ⟨hfits, hbyte, hrun⟩
  · have hbyte : ¬NoByte p a.length := by
      rw [refuses_iff hp] at hrefuses
      rintro ⟨hnone, hend, hlt⟩
      omega
    rw [and_iff_left hbyte]
    rcases Nat.eq_zero_or_pos a.length with hnone | hsome'
    · -- a packet that refuses to write nothing refuses the rest as well
      have hrefuses' : Refuses p b.length true := by
        rw [refuses_iff hp] at hrefuses ⊢
        omega
      have hboth := writeBoth_short hrun (writeData_refused hrefuses') (by omega)
      refine iff_of_true (RollsBack.of_unchanged hboth rfl) ?_
      rw [refuses_iff hp] at hrefuses hrefuses'
      simp only [SpoilsBoth, Fills]
      omega
    · exact writeBoth_refused hp hlen hsome' hrefuses
  · refine iff_of_false (not_rollsBack (r := .error writeFailed q) ?_ trivial (contents_ne ?_)) ?_
    · rw [writeBoth_run, hrun]
    · show q.writePos ≠ p.writePos
      omega
    · refine not_not_intro ⟨⟨hlt.ne, .inl ⟨hlt, hfills⟩⟩, ?_⟩
      rintro ⟨hnone, hend, -⟩
      omega
  · refine iff_of_true (RollsBack.of_succeeds (r := .error (.undefined .outOfBounds) p) ?_ id)
      fun h => h.2 hnone
    rw [writeBoth_run, hrun]
  · rw [and_iff_left hbyte]
    exact writeBoth_made hp hlen hfits hbyte hsome

end Both

/-! ## Strings -/

/-- Where a failed string leaves a trace: it fills the packet or would end behind the capacity,
and there is room for its length, or for its only character. -/
def SpoilsString (p : Packet) (size : ℕ) : Prop :=
  p.data.length ≠ datagramSize ∧ size ≤ maxStringLength ∧
    (Fills p (2 + size) ∨ datagramSize < p.writePos + 2 + size) ∧
    (p.writePos + 2 ≤ datagramSize ∨ (size = 1 ∧ p.writePos + 1 ≤ datagramSize))

/-- The characters of an empty string, where they come first and have no byte to refer to, are
undefined before anything is written. -/
def SpoilsInOrder (p : Packet) (order : EvalOrder) (size : ℕ) : Prop :=
  SpoilsString p size ∧ ¬(order = .rightFirst ∧ NoByte p size)

section Strings

variable {p : Packet} {s : List UInt8}

/-- The order of the two writes makes no difference to it. -/
theorem spoilsString_iff (hp : p.Valid) {size : ℕ} (hs : size ≤ maxStringLength) :
    (SpoilsBoth p 2 size ↔ SpoilsString p size) ∧ (SpoilsBoth p size 2 ↔ SpoilsString p size) := by
  have hwrite := hp.writePos
  simp only [SpoilsBoth, SpoilsString, Fills, maxStringLength, datagramSize] at *
  omega

/-- The two writes of a string, in the order in which they are made. -/
def inOrder (order : EvalOrder) (s : List UInt8) : PacketM ℕ :=
  match order with
  | .leftFirst => writeBoth (lengthPrefix s) s
  | .rightFirst => writeBoth s (lengthPrefix s)

theorem writeString_run (order : EvalOrder) (hs : s.length ≤ maxStringLength) (p : Packet) :
    (writeString order s).run p = (inOrder order s).run p := by
  have hprefix : writeImpl .int16 (Int16.ofNat s.length) = writeData (lengthPrefix s) true := rfl
  cases order with
  | leftFirst =>
    simp only [writeString, inOrder, writeBoth, EStateM.run_bind, enforce_run, hs, if_true,
      length_lengthPrefix, hprefix]
    cases (writeData (lengthPrefix s) true).run p with
    | error e q => rfl
    | ok m q =>
      simp only
      cases (writeData s true).run q <;> rfl
  | rightFirst =>
    simp only [writeString, inOrder, writeBoth, EStateM.run_bind, enforce_run, hs, if_true,
      length_lengthPrefix, hprefix]
    cases (writeData s true).run p with
    | error e q => rfl
    | ok n q =>
      simp only
      cases (writeData (lengthPrefix s) true).run q with
      | error e r => rfl
      | ok m r =>
        -- the sum is the same in both orders
        simp only [EStateM.run_pure, Nat.add_comm m n, Nat.add_comm s.length 2]
        rfl

theorem inOrder_rollsBack_iff (source : Prop) (order : EvalOrder) (hp : p.Valid)
    (hlen : p.data.length < 2 ^ 62) (hs : s.length ≤ maxStringLength) :
    RollsBack (CountFails source) contents (inOrder order s) p ↔
      ¬SpoilsInOrder p order s.length := by
  have hspoils := spoilsString_iff hp hs
  cases order with
  | leftFirst =>
    -- the length has bytes
    have hbyte : ¬NoByte p 2 := fun h => absurd h.1 (by decide)
    rw [inOrder, writeBoth_rollsBack_iff hp hlen (by rw [length_lengthPrefix]; omega),
      length_lengthPrefix, hspoils.1, and_iff_left hbyte, SpoilsInOrder,
      and_iff_left (by simp)]
  | rightFirst =>
    rw [inOrder, writeBoth_rollsBack_iff hp hlen (by rw [length_lengthPrefix]; omega),
      length_lengthPrefix, hspoils.2, SpoilsInOrder]
    simp

end Strings

/-! ## All forms -/

/-- Where a failure of the form leaves a trace. -/
def WriteForm.Spoils (p : Packet) : WriteForm → Prop
  | .writeData bytes => Fills p bytes.length
  | .write t _ | .insert t _ => Fills p t.size
  | .writeString order s | .insertString order s => SpoilsInOrder p order s.length
  | .writePacket packet | .insertPacket packet => Fills p packet.workSize

section Forms

variable {p : Packet}

/-- What `<<` does after its primitive write. -/
theorem insert_eq (t : ScalarType) (v : t.Val) :
    (WriteForm.insert t v).apply = writeData (t.encode v) true >>= fun written => do
      enforce (written = (t.encode v).length) "Failed to write data to packet."
      return none := by
  have hinsert : Packet.insert t v = writeEnforced (t.encode v) := by cases t <;> rfl
  show (Packet.insert t v >>= fun _ => pure none) = _
  rw [hinsert]
  exact bind_assoc _ _ _

/-- A check that fails leaves the packet, and one that holds is no failure. -/
theorem finalState_enforce_none (c : Prop) [Decidable c] (msg : String) (p : Packet) :
    finalState (EStateM.run (do
      enforce c msg
      return (none : Option ℕ)) p) = p := by
  rw [EStateM.run_bind, enforce_run]
  split_ifs <;> rfl

theorem not_fails_enforce_none {f : WriteForm} {c : Prop} [Decidable c] (hc : c) (msg : String)
    (p : Packet) :
    ¬f.Fails (EStateM.run (do
      enforce c msg
      return (none : Option ℕ)) p) := by
  rw [EStateM.run_bind, enforce_run, if_pos hc]
  rintro ⟨hcount, -⟩
  cases hcount

/-- A write that gives back a count above 0 has not failed. -/
theorem not_fails_some {f : WriteForm} {count : ℕ} (h : f.HasSource → count ≠ 0) (p : Packet) :
    ¬f.Fails (EStateM.run (pure (some count)) p) := by
  rintro ⟨hcount, hsource⟩
  exact h hsource (Option.some.inj hcount)

/-- A packet with a payload is written as its payload. -/
theorem writePacket_eq {packet : Packet} (hfull : packet.empty = false) :
    writePacket packet = writeData (packet.data.drop 2) true := by
  have hlen : ¬packet.data.length ≤ packetlenSize := by
    rw [← Bool.not_eq_true, empty_iff] at hfull
    exact hfull
  have hall : (packet.data.drop packetlenSize).take packet.workSize = packet.data.drop 2 := by
    apply List.take_of_length_le
    rw [List.length_drop, workSize_eq]
  rw [writePacket, if_neg (by rw [hfull]; decide), if_neg hlen, hall]

theorem length_payload (packet : Packet) : (packet.data.drop 2).length = packet.workSize := by
  rw [List.length_drop, workSize_eq]

/-- A form that writes a packet and looks at the count: one primitive write of the payload, and
none of an empty packet. -/
theorem packet_rollsBack_iff {f : WriteForm} (hp : p.Valid) (hlen : p.data.length < 2 ^ 62)
    (packet : Packet) (after : ℕ → PacketM (Option ℕ))
    (happly : f.apply = Packet.writePacket packet >>= after)
    (hsame : ∀ n, finalState ((after n).run p) = p)
    (hdone : packet.workSize ≠ 0 → ∀ q, ¬f.Fails ((after packet.workSize).run q)) :
    RollsBack f.Fails contents f.apply p ↔ ¬Fills p packet.workSize := by
  cases hempty : packet.empty with
  | true =>
    -- an empty packet is not written at all
    have hnone : packet.workSize = 0 := beq_iff_eq.mp hempty
    have hnothing : Packet.writePacket packet = pure 0 := by
      rw [Packet.writePacket, if_pos hempty]
    rw [hnone]
    refine iff_of_true (RollsBack.of_unchanged (r := (after 0).run p) ?_ (by rw [hsame]))
      (not_fills_zero hp)
    rw [happly, hnothing, pure_bind]
  | false =>
    have hsome : packet.workSize ≠ 0 := fun hnone => by
      rw [empty, hnone] at hempty
      cases hempty
    rw [← length_payload packet] at hdone ⊢
    refine primitive_rollsBack_iff hp hlen (packet.data.drop 2) after ?_ hsame
      (hdone (by rwa [length_payload]))
    rw [happly, writePacket_eq hempty]

theorem string_rollsBack_iff {f : WriteForm} (hp : p.Valid) (hlen : p.data.length < 2 ^ 62)
    (order : EvalOrder) (s : List UInt8) (count : ℕ → Option ℕ) (source : Prop)
    (happly : f.apply = do return count (← Packet.writeString order s))
    (hfails : ∀ n, count n = some 0 ∧ f.HasSource ↔ n = 0 ∧ source) :
    RollsBack f.Fails contents f.apply p ↔ ¬SpoilsInOrder p order s.length := by
  have hrun : f.apply.run p =
      match (Packet.writeString order s).run p with
      | .ok n q => .ok (count n) q
      | .error e q => .error e q := by
    rw [happly, EStateM.run_bind]
    cases (Packet.writeString order s).run p <;> rfl
  rcases Nat.lt_or_ge maxStringLength s.length with hlong | hs
  · -- a string that is too long is not begun
    have hthrows : (Packet.writeString order s).run p =
        .error (.thrown (.logicError "String too long!")) p := by
      simp only [Packet.writeString, EStateM.run_bind, enforce_run, if_neg (not_le.mpr hlong)]
    rw [hthrows] at hrun
    exact iff_of_true (RollsBack.of_unchanged hrun rfl) fun hspoils => by
      have := hspoils.1.2.1
      omega
  · rw [← inOrder_rollsBack_iff source order hp hlen hs]
    rw [writeString_run order hs] at hrun
    apply rollsBack_congr
    · rw [hrun]
      cases (inOrder order s).run p with
      | ok n q => exact hfails n
      | error e q => exact Iff.rfl
    · rw [hrun]
      cases (inOrder order s).run p <;> rfl

/-- A string for whose length alone there is room leaves its length behind. -/
theorem writeString_leaves {s : List UInt8} (hs : s.length ≤ maxStringLength)
    (hlt : p.data.length < datagramSize) (hpos : 2 ≤ p.writePos)
    (hfits : p.writePos.toNat + 2 < datagramSize)
    (hlong : p.writePos.toNat + 2 + s.length > datagramSize) :
    (writeString .leftFirst s).run p = .error notWhole (p.written (lengthPrefix s)) := by
  have hfirst : (writeData (lengthPrefix s) true).run p = .ok 2 (p.written (lengthPrefix s)) :=
    writeData_written _ _ hlt hpos (by rwa [length_lengthPrefix])
      (.inl (by rw [length_lengthPrefix]; decide))
  have hcursor : (p.written (lengthPrefix s)).writePos = p.writePos + 2 := rfl
  have hsecond : (writeData s true).run (p.written (lengthPrefix s)) =
      .ok 0 (p.written (lengthPrefix s)) :=
    writeData_refused (.inr ⟨rfl, by omega⟩)
  rw [writeString_run .leftFirst hs]
  exact writeBoth_short hfirst hsecond (by rw [length_lengthPrefix]; omega)

theorem string_throws {order : EvalOrder} {s : List UInt8} {e : Fault} {q : Packet}
    (h : (writeString order s).run p = .error e q) :
    (WriteForm.writeString order s).apply.run p = .error e q := by
  show EStateM.run (do return some (← writeString order s)) p = _
  rw [EStateM.run_bind, h]

/-- **Failed writes.** Exactly where it does not spoil the packet, a form of writing that throws,
or returns 0 although there was something to write, leaves its bytes and cursors as they
were. -/
theorem failedWrites_iff (hp : p.Valid) (hlen : p.data.length < 2 ^ 62) (f : WriteForm) :
    RollsBack f.Fails contents f.apply p ↔ ¬f.Spoils p := by
  cases f with
  | writeData bytes =>
    refine primitive_rollsBack_iff hp hlen bytes (fun n => pure (some n)) rfl (fun _ => rfl) ?_
    exact not_fails_some fun hsource hnone => hsource (List.length_eq_zero_iff.mp hnone)
  | write t v =>
    have hencoded := primitive_rollsBack_iff (f := .write t v) hp hlen (t.encode v)
      (fun n => pure (some n)) rfl (fun _ => rfl) ?_
    · rwa [ScalarType.length_encode] at hencoded
    · refine not_fails_some fun _ hnone => ?_
      have hpos := t.size_pos
      rw [ScalarType.length_encode] at hnone
      omega
  | insert t v =>
    have hencoded := primitive_rollsBack_iff hp hlen _ _ (insert_eq t v)
      (fun n => finalState_enforce_none _ _ p) (not_fails_enforce_none rfl _)
    rwa [ScalarType.length_encode] at hencoded
  | writeString order s =>
    refine string_rollsBack_iff hp hlen order s some (s ≠ []) rfl fun n => ?_
    exact and_congr_left' Option.some_inj
  | insertString order s =>
    refine string_rollsBack_iff hp hlen order s (fun _ => none) False ?_ ?_
    · exact bind_assoc _ _ _
    · simp
  | writePacket packet =>
    exact packet_rollsBack_iff hp hlen packet (fun n => pure (some n)) rfl (fun _ => rfl)
      fun hsome => not_fails_some fun _ => hsome
  | insertPacket packet =>
    refine packet_rollsBack_iff hp hlen packet (fun written => do
      enforce (written = packet.workSize) "Failed to write packet data to packet instance."
      return none) ?_ (fun n => finalState_enforce_none _ _ p)
      fun _ => not_fails_enforce_none rfl _
    exact bind_assoc _ _ _

end Forms

/-- A write of more than there is room for, into a new packet. -/
theorem failedWrites_iff_refused :
    RollsBack (WriteForm.writeData (List.replicate 65535 0)).Fails contents
        (WriteForm.writeData (List.replicate 65535 0)).apply fresh ↔
      ¬(WriteForm.writeData (List.replicate 65535 0)).Spoils fresh :=
  failedWrites_iff fresh_valid (by decide) _

/-- A packet with room for five bytes more. -/
def almostFull : Packet := fresh.written (List.replicate 65529 0)

theorem length_almostFull : almostFull.data.length = 65531 := by
  rw [almostFull, length_written, List.length_replicate]
  rfl

theorem writePos_almostFull : almostFull.writePos = 65531 := by
  show fresh.writePos + ((List.replicate 65529 (0 : UInt8)).length : ℕ) = 65531
  rw [List.length_replicate]
  rfl

/-- Four characters do not fit behind their length, which has been written when that is found
out. -/
theorem not_rollsBack_string :
    almostFull.Valid ∧ almostFull.data.length ≤ datagramSize ∧
      (∃ q, (writeString .leftFirst [97, 98, 99, 100]).run almostFull = .error notWhole q ∧
        q.writePos = almostFull.writePos + 2) ∧
      ¬RollsBack (WriteForm.writeString .leftFirst [97, 98, 99, 100]).Fails contents
        (WriteForm.writeString .leftFirst [97, 98, 99, 100]).apply almostFull := by
  have hlen := length_almostFull
  have hpos := writePos_almostFull
  have hthrows := writeString_leaves (p := almostFull) (s := [97, 98, 99, 100]) (by decide)
    (by rw [hlen]; decide) (by rw [hpos]; decide) (by rw [hpos]; decide) (by rw [hpos]; decide)
  refine ⟨written_valid _ fresh_valid, by rw [hlen]; decide, ⟨_, hthrows, rfl⟩, ?_⟩
  exact not_rollsBack (string_throws hthrows) trivial (contents_ne (written_moves _ (by decide)))

end Sws.Packet
