import Sws.Model.Typed

/-!
# What the Packet Operations Do

One specification for each primitive operation, so that later proofs never unfold it: the
result, the exception and the packet left behind, for every packet.

## Key Results

- `seekImpl_ok`, `seekImpl_throws`: a seek in terms of its target.
- `updateSize_full`, `updateSize_ok`, `updateSize_throws`: the header update.
- `writeData_refused`, `writeData_outside`, `writeData_header`, `writeData_fills`,
  `writeData_ok`: the write.
- `readData_nothing`, `readData_ok`: the read.
-/

namespace Sws

open Sws.Foundation

/-! ## Running the building blocks -/

@[simp] theorem enforce_run {σ : Type} (c : Prop) [Decidable c] (msg : String) (s : σ) :
    (enforce c msg : EStateM Fault σ Unit).run s =
      if c then .ok () s else .error (.thrown (.logicError msg)) s := by
  by_cases hc : c
  · rw [enforce_of_pos hc, if_pos hc]; rfl
  · rw [enforce_of_neg hc, if_neg hc]; rfl

/-- A check that fails throws and leaves everything as it is. -/
theorem ensures_enforce {σ : Type} {c : Prop} [Decidable c] {msg : String} {P : σ → Prop}
    {E : Fault → σ → Prop} (h : ∀ s, P s → ¬c → E (.thrown (.logicError msg)) s) :
    Ensures P (enforce c msg : EStateM Fault σ Unit) (fun _ s => P s ∧ c) E := by
  by_cases hc : c
  · rw [enforce_of_pos hc]
    exact Ensures.pure fun s hs => ⟨hs, hc⟩
  · rw [enforce_of_neg hc]
    exact Ensures.throw fun s hs => h s hs hc

/-- What follows a check may rely on it. -/
theorem ensures_enforce_bind {σ β : Type} {c : Prop} [Decidable c] {msg : String} {P : σ → Prop}
    {f : Unit → EStateM Fault σ β} {R : β → σ → Prop} {E : Fault → σ → Prop}
    (hfail : ∀ s, P s → ¬c → E (.thrown (.logicError msg)) s) (hf : c → Ensures P (f ()) R E) :
    Ensures P (enforce c msg >>= f) R E := by
  refine Ensures.bind (ensures_enforce hfail) fun _ => ?_
  exact ⟨fun s hs => (hf hs.2).run s hs.1⟩

namespace Packet

/-! ## Seeking -/

/-- Where a seek wants to put a cursor of the payload, in unbounded integers. -/
def seekTarget (workSize : ℕ) (type : SeekType) (pos value : Int) : Int :=
  match type with
  | .fromStart => value
  | .relative => pos - 2 + value
  | .fromEnd => workSize - value

section Seek

variable (workSize : ℕ) (type : SeekType) (value : Int64) (pos : Int)

/-- A seek to a target inside the payload puts the cursor there. -/
theorem seekImpl_ok (hsize : workSize < 2 ^ 62) (hpos : 0 ≤ pos ∧ pos < 2 ^ 62)
    (h₀ : 0 ≤ seekTarget workSize type pos value.toInt)
    (h : seekTarget workSize type pos value.toInt ≤ workSize) :
    (seekImpl workSize type value).run pos =
      .ok () (seekTarget workSize type pos value.toInt + 2) := by
  cases type with
  | fromStart =>
    -- no conversion wraps, since the target lies in the payload
    simp only [seekTarget] at h₀ h ⊢
    have hput : toPtrdiff (value.toInt + 2) = value.toInt + 2 :=
      toPtrdiff_of_mem (by omega) (by omega)
    have hsz : toSize value.toInt ≤ workSize := by
      rw [toSize_of_nonneg h₀ (by omega)]; omega
    simp [seekImpl, h₀, hsz, hput]
  | relative =>
    simp only [seekTarget] at h₀ h ⊢
    have hwork : toPtrdiff (pos - 2) = pos - 2 := toPtrdiff_of_mem (by omega) (by omega)
    have hsum : toPtrdiff (pos - 2 + value.toInt) = pos - 2 + value.toInt :=
      toPtrdiff_of_mem (by omega) (by omega)
    have hput : toPtrdiff (pos - 2 + value.toInt + 2) = pos - 2 + value.toInt + 2 :=
      toPtrdiff_of_mem (by omega) (by omega)
    have hsz : toSize (pos - 2 + value.toInt) ≤ workSize := by
      rw [toSize_of_nonneg h₀ (by omega)]; omega
    simp [seekImpl, hwork, hsum, h₀, hsz, hput]
  | fromEnd =>
    simp only [seekTarget] at h₀ h ⊢
    have hvalue : 0 ≤ value.toInt := by omega
    have hsub : toPtrdiff (workSize - value.toInt) = workSize - value.toInt :=
      toPtrdiff_of_mem (by omega) (by omega)
    have hput : toPtrdiff (workSize - value.toInt + 2) = workSize - value.toInt + 2 :=
      toPtrdiff_of_mem (by omega) (by omega)
    simp only [seekImpl, EStateM.run_bind, EStateM.run_get, EStateM.run_set, enforce_run,
      hvalue, hsub, h₀, if_true, Nat.cast_ofNat, hput]
    rw [if_pos (by omega)]

/-- A seek to a target outside the payload throws and leaves the cursor. -/
theorem seekImpl_throws (hsize : workSize < 2 ^ 62) (hpos : 0 ≤ pos ∧ pos < 2 ^ 62)
    (hoverflow : type = .relative →
      -2 ^ 63 ≤ pos - 2 + value.toInt ∧ pos - 2 + value.toInt < 2 ^ 63)
    (h : ¬(0 ≤ seekTarget workSize type pos value.toInt ∧
      seekTarget workSize type pos value.toInt ≤ workSize)) :
    ∃ msg, (seekImpl workSize type value).run pos =
      .error (.thrown (.logicError msg)) pos := by
  have hmax := value.toInt_lt
  have hmin := value.le_toInt
  cases type with
  | fromStart =>
    simp only [seekTarget] at h
    -- a negative value and one beyond the end fail different checks
    by_cases h₀ : 0 ≤ value.toInt
    · have hsz : ¬toSize value.toInt ≤ workSize := by
        rw [toSize_of_nonneg h₀ (by omega)]; omega
      simp [seekImpl, h₀, hsz]
    · simp [seekImpl, h₀]
  | relative =>
    simp only [seekTarget] at h
    have hwork : toPtrdiff (pos - 2) = pos - 2 := toPtrdiff_of_mem (by omega) (by omega)
    have hsum : toPtrdiff (pos - 2 + value.toInt) = pos - 2 + value.toInt :=
      toPtrdiff_of_mem (hoverflow rfl).1 (hoverflow rfl).2
    by_cases h₀ : 0 ≤ pos - 2 + value.toInt
    · have hsz : ¬toSize (pos - 2 + value.toInt) ≤ workSize := by
        rw [toSize_of_nonneg h₀ (by omega)]; omega
      simp [seekImpl, hwork, hsum, h₀, hsz]
    · simp [seekImpl, hwork, hsum, h₀]
  | fromEnd =>
    simp only [seekTarget] at h
    by_cases hvalue : 0 ≤ value.toInt
    · have hsub : toPtrdiff (workSize - value.toInt) = workSize - value.toInt :=
        toPtrdiff_of_mem (by omega) (by omega)
      -- the payload is shorter than the value, and the difference is negative
      have hneg : ¬0 ≤ (workSize : Int) - value.toInt := by omega
      simp only [seekImpl, EStateM.run_bind, EStateM.run_get, enforce_run, hvalue, hsub, hneg,
        if_true, if_false]
      exact ⟨_, rfl⟩
    · simp [seekImpl, hvalue]

theorem seekImpl_overflow (hpos : 0 ≤ pos ∧ pos < 2 ^ 62)
    (h : ¬(-2 ^ 63 ≤ pos - 2 + value.toInt ∧ pos - 2 + value.toInt < 2 ^ 63)) :
    (seekImpl workSize .relative value).run pos = .error (.undefined .signedOverflow) pos := by
  have hmax := value.toInt_lt
  have hwork : toPtrdiff (pos - 2) = pos - 2 := toPtrdiff_of_mem (by omega) (by omega)
  have hwrap : toPtrdiff (pos - 2 + value.toInt) ≠ pos - 2 + value.toInt := by
    intro heq
    have hmem := toPtrdiff_mem (pos - 2 + value.toInt)
    omega
  simp [seekImpl, hwork, hwrap]

end Seek

/-- A seek of one cursor runs `seek_impl` on it, and touches nothing else. -/
theorem seek_write_of_ok {p : Packet} {type : SeekType} {value : Int64} {pos : Int}
    (h : (seekImpl p.workSize type value).run p.writePos = .ok () pos) :
    (seek .write type value).run p = .ok () { p with writePos := pos } := by
  show (onWritePos (seekImpl p.workSize type value)).run p = _
  rw [onWritePos, zoom_run_of_ok h]

theorem seek_write_of_error {p : Packet} {type : SeekType} {value : Int64} {e : Fault} {pos : Int}
    (h : (seekImpl p.workSize type value).run p.writePos = .error e pos) :
    (seek .write type value).run p = .error e { p with writePos := pos } := by
  show (onWritePos (seekImpl p.workSize type value)).run p = _
  rw [onWritePos, zoom_run_of_error h]

theorem seek_read_of_ok {p : Packet} {type : SeekType} {value : Int64} {pos : Int}
    (h : (seekImpl p.workSize type value).run p.readPos = .ok () pos) :
    (seek .read type value).run p = .ok () { p with readPos := pos } := by
  show (onReadPos (seekImpl p.workSize type value)).run p = _
  rw [onReadPos, zoom_run_of_ok h]

theorem seek_read_of_error {p : Packet} {type : SeekType} {value : Int64} {e : Fault} {pos : Int}
    (h : (seekImpl p.workSize type value).run p.readPos = .error e pos) :
    (seek .read type value).run p = .error e { p with readPos := pos } := by
  show (onReadPos (seekImpl p.workSize type value)).run p = _
  rw [onReadPos, zoom_run_of_error h]

/-! ## Copying into the buffer -/

theorem workSize_eq (p : Packet) : p.workSize = p.data.length - 2 := by
  simp only [workSize, packetlenSize]
  split <;> omega

theorem length_makeRoom (size : ℕ) (p : Packet) :
    (p.makeRoom size).data.length = max p.data.length (p.writePos.toNat + size) := by
  simp only [makeRoom]
  split
  · rw [List.takeD_length]
    omega
  · omega

/-- A segment inside the buffer needs no room. -/
theorem makeRoom_eq_self {size : ℕ} {p : Packet} (h : p.writePos.toNat + size ≤ p.data.length) :
    p.makeRoom size = p := by
  have hfits : ¬p.writePos.toNat + size > p.data.length := by omega
  simp only [makeRoom, if_neg hfits]

theorem length_copyIn (bytes : List UInt8) (p : Packet) :
    (p.copyIn bytes).data.length = max p.data.length (p.writePos.toNat + bytes.length) := by
  have hroom := length_makeRoom bytes.length p
  simp only [copyIn]
  rw [length_splice _ _ (by omega), hroom]
  omega

/-- Inside the buffer or at its end, the copy is a splice. -/
theorem data_copyIn {bytes : List UInt8} {p : Packet} (h : p.writePos ≤ p.data.length) :
    (p.copyIn bytes).data = splice p.data p.writePos.toNat bytes := by
  simp only [copyIn, makeRoom]
  split
  · rename_i hgrow
    -- the buffer grows to the end of the segment first
    have hmax : p.writePos.toNat + bytes.length =
        max p.data.length (p.writePos.toNat + bytes.length) := by omega
    rw [hmax, splice_takeD _ _ _ (by omega)]
  · rfl

/-- Only the buffer and the write cursor change. -/
theorem copyIn_eq (bytes : List UInt8) (p : Packet) :
    p.copyIn bytes =
      { p with data := (p.copyIn bytes).data, writePos := p.writePos + bytes.length } := rfl

@[simp] theorem writePos_copyIn (bytes : List UInt8) (p : Packet) :
    (p.copyIn bytes).writePos = p.writePos + bytes.length := rfl

@[simp] theorem readPos_copyIn (bytes : List UInt8) (p : Packet) :
    (p.copyIn bytes).readPos = p.readPos := rfl

/-! ## The body of a write -/

/-- The number of bytes a write that is not refused takes. -/
def room (p : Packet) (size : ℕ) : ℕ := min (datagramSize - p.writePos.toNat) size

section Body

variable {u : PacketM Unit} {bytes : List UInt8} {whole : Bool} {p : Packet}

/-- A write is refused by a full packet, and when all of it must fit and does not. -/
def Refuses (p : Packet) (size : ℕ) (whole : Bool) : Prop :=
  p.data.length = datagramSize ∨ (whole = true ∧ p.writePos.toNat + size > datagramSize)

instance (size : ℕ) : Decidable (Refuses p size whole) :=
  inferInstanceAs (Decidable (_ ∨ _))

/-- A write that takes no byte while the write cursor stands behind the last one refers to a byte
that is not there. -/
def PointsOutside (p : Packet) (size : ℕ) : Prop :=
  p.room size = 0 ∧ p.data.length ≤ p.writePos

instance (size : ℕ) : Decidable (PointsOutside p size) :=
  inferInstanceAs (Decidable (_ ∧ _))

theorem not_pointsOutside_of_lt {size : ℕ} (h : p.writePos < p.data.length) :
    ¬PointsOutside p size :=
  fun hout => absurd hout.2 (by omega)

theorem not_pointsOutside_of_pos {size : ℕ} (hsize : 0 < size) (h : p.writePos < datagramSize) :
    ¬PointsOutside p size := by
  rintro ⟨hroom, -⟩
  simp only [room, datagramSize] at hroom h
  omega

/-- A byte to write, or one of the buffer. -/
theorem not_pointsOutside {size : ℕ} (hbyte : 0 < size ∨ p.writePos < p.data.length)
    (h : p.writePos < datagramSize) : ¬PointsOutside p size :=
  hbyte.elim (fun hsize => not_pointsOutside_of_pos hsize h) not_pointsOutside_of_lt

theorem writeDataWith_refused (h : Refuses p bytes.length whole) :
    (writeDataWith u bytes whole).run p = .ok 0 p := by
  by_cases hfull : p.data.length = datagramSize
  · simp [writeDataWith, full, hfull]
  · have hwhole := h.resolve_left hfull
    simp [writeDataWith, full, hfull, hwhole.1, hwhole.2]

/-- The buffer has grown before the reference is taken, if there is a byte to copy. -/
theorem outside_makeRoom_iff {size : ℕ} (hpos : 0 ≤ p.writePos) :
    p.writePos ≥ (p.makeRoom (p.room size)).data.length ↔ PointsOutside p size := by
  rw [length_makeRoom, PointsOutside]
  omega

theorem min_toSize_eq_room (size : ℕ) (hpos : 0 ≤ p.writePos ∧ p.writePos ≤ datagramSize) :
    min (toSize (datagramSize - p.writePos)) size = p.room size := by
  rw [room, toSize_of_nonneg (by omega) (by simp only [datagramSize] at *; omega)]
  omega

/-- A write without a byte to refer to is undefined. -/
theorem writeDataWith_outside (h : ¬Refuses p bytes.length whole)
    (hpos : 0 ≤ p.writePos ∧ p.writePos ≤ datagramSize) (hout : PointsOutside p bytes.length) :
    (writeDataWith u bytes whole).run p = .error (.undefined .outOfBounds) (p.makeRoom 0) := by
  obtain ⟨hfull, hwhole⟩ := not_or.mp h
  have hwhole' : ¬(whole = true ∧ p.writePos.toNat + bytes.length > datagramSize) := hwhole
  have hcheck := (outside_makeRoom_iff hpos.1).mpr hout
  simp only [writeDataWith, EStateM.run_bind, EStateM.run_get, full, beq_iff_eq, hfull, if_false,
    hwhole', EStateM.run_set, min_toSize_eq_room _ hpos, hout.1] at hcheck ⊢
  rw [if_pos hcheck]
  rfl

/-- Otherwise the bytes are copied; only a write that starts at 0 leaves the header alone. -/
theorem writeDataWith_copies (h : ¬Refuses p bytes.length whole)
    (hpos : 0 ≤ p.writePos ∧ p.writePos ≤ datagramSize) (hin : ¬PointsOutside p bytes.length) :
    (writeDataWith u bytes whole).run p =
      match (if p.writePos > 0 then u else pure ()).run
          (p.copyIn (bytes.take (p.room bytes.length))) with
      | .ok _ q => .ok (p.room bytes.length) q
      | .error e q => .error e q := by
  obtain ⟨hfull, hwhole⟩ := not_or.mp h
  have hwhole' : ¬(whole = true ∧ p.writePos.toNat + bytes.length > datagramSize) := hwhole
  have hcheck := mt (outside_makeRoom_iff hpos.1).mp hin
  simp only [writeDataWith, EStateM.run_bind, EStateM.run_get, full, beq_iff_eq, hfull, if_false,
    hwhole', EStateM.run_set, min_toSize_eq_room _ hpos, hcheck]
  -- only behind 0 the header is brought up to date
  split_ifs with hw
  · rw [EStateM.run_bind]
    cases u.run (p.copyIn (bytes.take (p.room bytes.length))) <;> rfl
  · rfl

end Body

/-! ## The header update -/

/-- The packet with its header brought up to date and the write cursor behind it. -/
def stamped (p : Packet) : Packet :=
  { p with writePos := 0 }.copyIn (toBytes 2 p.workSize)

/-- The message of a primitive write that failed. -/
abbrev writeFailed : Fault := .thrown (.logicError "Failed to write data to packet.")

theorem length_stamped (p : Packet) : p.stamped.data.length = max p.data.length 2 := by
  simp [stamped, length_copyIn]

theorem workSize_stamped (p : Packet) : p.stamped.workSize = p.workSize := by
  rw [workSize_eq, workSize_eq, length_stamped]
  omega

/-- A full packet has no room for its own header: the update throws with the write cursor
still at 0. -/
theorem updateSize_full {p : Packet} (h : p.data.length = datagramSize) :
    updateSize.run p = .error writeFailed { p with writePos := 0 } := by
  have hrefused : (writeDataWith (pure ()) (toBytes packetlenSize p.workSize) true).run
      { p with writePos := 0 } = .ok 0 { p with writePos := 0 } :=
    writeDataWith_refused (.inl h)
  have hws : { p with writePos := 0 }.workSize = p.workSize := rfl
  -- the nested write takes nothing, and its caller throws
  simp only [updateSize, writeEnforcedWith, EStateM.run_bind, EStateM.run_get,
    EStateM.run_modify, hws, hrefused, length_toBytes, enforce_run]
  rfl

/-- Otherwise the header is written, and what is left is the seek back. -/
theorem updateSize_run {p : Packet} (h : p.data.length ≠ datagramSize) :
    updateSize.run p =
      (seek .write .fromStart (Int64.ofInt (p.tell .write))).run p.stamped := by
  have hws : { p with writePos := 0 }.workSize = p.workSize := rfl
  have hroom : room { p with writePos := 0 } 2 = 2 := rfl
  have hcopies : (writeDataWith (pure ()) (toBytes packetlenSize p.workSize) true).run
      { p with writePos := 0 } = .ok 2 p.stamped := by
    -- the nested write starts at 0, and does not come back here
    rw [writeDataWith_copies (by simp [Refuses, h, packetlenSize, datagramSize]) (by simp)
      (not_pointsOutside_of_pos (by simp) (by simp))]
    simp [hroom, stamped, List.take_of_length_le]
  simp only [updateSize, writeEnforcedWith, EStateM.run_bind, EStateM.run_get,
    EStateM.run_modify, hws, hcopies, length_toBytes, enforce_run]
  rfl

theorem data_stamped (p : Packet) : p.stamped.data = splice p.data 0 (toBytes 2 p.workSize) :=
  data_copyIn (p := { p with writePos := 0 }) (by simp)

/-- Behind the header nothing changes. -/
theorem drop_stamped (p : Packet) : p.stamped.data.drop 2 = p.data.drop 2 := by
  rw [data_stamped, drop_splice_of_le _ _ (Nat.zero_le _) (by simp)]

/-- The header is what the payload's size is encoded as. -/
theorem take_stamped (p : Packet) : p.stamped.data.take 2 = toBytes 2 p.workSize := by
  rw [data_stamped, splice_zero, List.take_append_of_le_length (by simp),
    List.take_of_length_le (by simp)]

theorem stamped_eq (p : Packet) :
    p.stamped = { p with data := splice p.data 0 (toBytes 2 p.workSize), writePos := 2 } := by
  rw [← data_stamped]
  rfl

/-- The position a seek back aims at is the write cursor's own. -/
theorem toInt_tell_write {p : Packet} (h : -2 ^ 62 ≤ p.writePos ∧ p.writePos < 2 ^ 62) :
    (Int64.ofInt (p.tell .write)).toInt = p.writePos - 2 := by
  have htell : p.tell .write = toPtrdiff (p.writePos - 2) := rfl
  rw [htell, toPtrdiff_of_mem (by omega) (by omega),
    Int64.toInt_ofInt_of_le (by omega) (by omega)]

/-- The seek back restores the write cursor, if it stands inside the buffer. -/
theorem updateSize_ok {p : Packet} (h : p.data.length ≠ datagramSize)
    (hlen : p.data.length < 2 ^ 62)
    (hpos : 2 ≤ p.writePos ∧ p.writePos ≤ max p.data.length 2) :
    updateSize.run p = .ok () { p.stamped with writePos := p.writePos } := by
  have htarget := toInt_tell_write (p := p) (by omega)
  have hws : p.stamped.workSize = p.data.length - 2 := by rw [workSize_stamped, workSize_eq]
  have hseek := seekImpl_ok p.stamped.workSize .fromStart (Int64.ofInt (p.tell .write)) 2
    (by omega) (by omega)
    (by rw [seekTarget, htarget]; omega) (by rw [seekTarget, htarget]; omega)
  rw [updateSize_run h, seek_write_of_ok hseek, seekTarget, htarget, Int.sub_add_cancel]

/-- The seek back throws, with the write cursor behind the header, if it does not. -/
theorem updateSize_throws {p : Packet} (h : p.data.length ≠ datagramSize)
    (hlen : p.data.length < 2 ^ 62) (hrange : -2 ^ 62 ≤ p.writePos ∧ p.writePos < 2 ^ 62)
    (hpos : ¬(2 ≤ p.writePos ∧ p.writePos ≤ max p.data.length 2)) :
    ∃ msg, updateSize.run p = .error (.thrown (.logicError msg)) p.stamped := by
  have htarget := toInt_tell_write hrange
  have hws : p.stamped.workSize = p.data.length - 2 := by rw [workSize_stamped, workSize_eq]
  obtain ⟨msg, hseek⟩ := seekImpl_throws p.stamped.workSize .fromStart
    (Int64.ofInt (p.tell .write)) 2 (by omega) (by omega) (by simp)
    (by rw [seekTarget, htarget]; omega)
  exact ⟨msg, by rw [updateSize_run h, seek_write_of_error hseek]; rfl⟩

/-! ## Writing -/

section Write

variable {bytes : List UInt8} {whole : Bool} {p : Packet}

theorem writeData_refused (h : Refuses p bytes.length whole) :
    (writeData bytes whole).run p = .ok 0 p :=
  writeDataWith_refused h

theorem writeData_outside (h : ¬Refuses p bytes.length whole)
    (hpos : 0 ≤ p.writePos ∧ p.writePos ≤ datagramSize) (hout : PointsOutside p bytes.length) :
    (writeData bytes whole).run p = .error (.undefined .outOfBounds) (p.makeRoom 0) :=
  writeDataWith_outside h hpos hout

/-- A write at 0 writes the header itself, and takes every byte for what it is. -/
theorem writeData_header (h : ¬Refuses p bytes.length whole) (hpos : p.writePos = 0)
    (hin : ¬PointsOutside p bytes.length) :
    (writeData bytes whole).run p =
      .ok (p.room bytes.length) (p.copyIn (bytes.take (p.room bytes.length))) := by
  rw [writeData, writeDataWith_copies h (by simp [hpos]) hin]
  simp [hpos]

/-- The packet after a write that neither fills it nor is refused. -/
def written (p : Packet) (bytes : List UInt8) : Packet :=
  { (p.copyIn bytes).stamped with writePos := p.writePos + bytes.length }

/-- A write that fills the packet copies its bytes, and then throws: the full buffer has no
room for the header. -/
theorem writeData_fills (h : ¬Refuses p bytes.length whole) (hlen : p.data.length ≤ datagramSize)
    (hpos : 2 ≤ p.writePos ∧ p.writePos ≤ datagramSize) (hin : ¬PointsOutside p bytes.length)
    (hfills : p.writePos.toNat + p.room bytes.length = datagramSize) :
    (writeData bytes whole).run p = .error writeFailed
      { p.copyIn (bytes.take (p.room bytes.length)) with writePos := 0 } := by
  have htaken : (bytes.take (p.room bytes.length)).length = p.room bytes.length := by
    rw [List.length_take, room]; omega
  -- the copy reaches the end of the largest buffer
  have hfull : (p.copyIn (bytes.take (p.room bytes.length))).data.length = datagramSize := by
    rw [length_copyIn, htaken, hfills, Nat.max_eq_right hlen]
  rw [writeData, writeDataWith_copies h (by omega) hin, if_pos (by omega), updateSize_full hfull]

/-- Any other write copies its bytes, brings the header up to date and advances the cursor. -/
theorem writeData_ok (h : ¬Refuses p bytes.length whole) (hlen : p.data.length < datagramSize)
    (hpos : 2 ≤ p.writePos) (hin : ¬PointsOutside p bytes.length)
    (hfits : p.writePos.toNat + p.room bytes.length < datagramSize) :
    (writeData bytes whole).run p =
      .ok (p.room bytes.length) (p.written (bytes.take (p.room bytes.length))) := by
  simp only [datagramSize] at hlen hfits
  have htaken : (bytes.take (p.room bytes.length)).length = p.room bytes.length := by
    rw [List.length_take, room]; omega
  have hlen' := length_copyIn (bytes.take (p.room bytes.length)) p
  rw [htaken] at hlen'
  have hw := writePos_copyIn (bytes.take (p.room bytes.length)) p
  rw [htaken] at hw
  rw [writeData, writeDataWith_copies h (by simp only [datagramSize]; omega) hin,
    if_pos (by omega), updateSize_ok (by simp only [datagramSize]; omega) (by omega) (by omega),
    written, hw, htaken]

end Write

/-! ## Reading -/

section Read

variable {size : ℕ} {whole : Bool} {p : Packet}

theorem empty_iff (p : Packet) : p.empty = true ↔ p.data.length ≤ 2 := by
  simp only [empty, workSize_eq, beq_iff_eq]
  omega

/-- Bytes behind the read cursor that a read takes. -/
def available (p : Packet) (size : ℕ) : ℕ := min (p.data.length - p.readPos.toNat) size

/-- The size the code computes, where the buffer is not empty. -/
theorem min_toSize_eq_available (size : ℕ) (hpos : 2 ≤ p.readPos ∧ p.readPos ≤ p.data.length)
    (hlen : p.data.length < 2 ^ 62) :
    min (toSize (p.realSize - p.readPos)) size = p.available size := by
  rw [available, realSize, toSize_of_nonneg (by omega) (by omega)]
  omega

/-- A read that has nothing to give, or less than all it must give, changes nothing. -/
theorem readData_nothing (hpos : 2 ≤ p.readPos ∧ p.readPos ≤ max p.data.length 2)
    (hlen : p.data.length < 2 ^ 62)
    (h : p.available size = 0 ∨ (whole = true ∧ p.available size < size)) :
    (readData size whole).run p = .ok [] p := by
  by_cases hempty : p.empty = true
  · simp [readData, hempty]
  · have hsize := mt p.empty_iff.mpr hempty
    have hmin := min_toSize_eq_available (p := p) size (by omega) hlen
    simp only [readData, EStateM.run_bind, EStateM.run_get, hempty, hmin, h, if_true]
    rfl

/-- Any other read gives the bytes behind the read cursor and advances it. -/
theorem readData_ok (hpos : 2 ≤ p.readPos ∧ p.readPos ≤ max p.data.length 2)
    (hlen : p.data.length < 2 ^ 62)
    (h : ¬(p.available size = 0 ∨ (whole = true ∧ p.available size < size))) :
    (readData size whole).run p =
      .ok ((p.data.drop p.readPos.toNat).take (p.available size))
        { p with readPos := p.readPos + p.available size } := by
  -- a buffer without a payload has nothing to give
  have hsize : ¬p.data.length ≤ 2 := by
    intro hle
    exact h (.inl (by rw [available]; omega))
  have hempty : ¬p.empty = true := mt p.empty_iff.mp hsize
  have hmin := min_toSize_eq_available (p := p) size (by omega) hlen
  have hinside : ¬p.readPos + p.available size > p.data.length := by
    rw [available]; omega
  simp only [readData, EStateM.run_bind, EStateM.run_get, hempty, hmin, h, hinside, if_false]
  rfl

end Read

/-! ## Resizing and clearing -/

/-- The size a resize gives the buffer. -/
def clampSize (size : ℕ) : ℕ := max 2 (min datagramSize size)

theorem resize_run (p : Packet) (size : ℕ) :
    (resize size).run p = updateSize.run { p with data := p.data.takeD (clampSize size) 0 } := rfl

/-- The packet after a resize that does not throw. -/
def resized (p : Packet) (size : ℕ) : Packet :=
  { { p with data := p.data.takeD (clampSize size) 0 }.stamped with writePos := p.writePos }

theorem clampSize_mem (size : ℕ) : 2 ≤ clampSize size ∧ clampSize size ≤ datagramSize := by
  simp only [clampSize, datagramSize]; omega

theorem clampSize_of_mem {size : ℕ} (h : 2 ≤ size ∧ size ≤ datagramSize) :
    clampSize size = size := by
  simp only [clampSize, datagramSize] at *; omega

@[simp] theorem length_resized (p : Packet) (size : ℕ) :
    (p.resized size).data.length = clampSize size := by
  have hclamp := clampSize_mem size
  show (stamped { p with data := p.data.takeD (clampSize size) 0 }).data.length = _
  rw [length_stamped, List.takeD_length]
  omega

/-- A resize below the capacity that keeps the write cursor inside. -/
theorem resize_ok {p : Packet} (size : ℕ) (hsize : size < datagramSize)
    (hpos : 2 ≤ p.writePos ∧ p.writePos ≤ clampSize size) :
    (resize size).run p = .ok () (p.resized size) := by
  have hlen : (p.data.takeD (clampSize size) 0).length = clampSize size := List.takeD_length ..
  have hclamp : clampSize size < datagramSize := by
    simp only [clampSize, datagramSize] at *; omega
  rw [resize_run, updateSize_ok (by simp only [hlen]; omega)
    (by simp only [hlen, datagramSize] at *; omega) (by simp only [hlen]; omega)]
  rfl

/-- What `clear` leaves of a packet: an empty payload and the progress of transfers. -/
def cleared (p : Packet) : Packet :=
  { p with data := [0, 0], readPos := 2, writePos := 2 }

theorem clear_run (p : Packet) : clear.run p = .ok () p.cleared := by
  have hclamp : clampSize packetlenSize = 2 := by
    simp only [clampSize, datagramSize, packetlenSize]; omega
  have hlen : (p.data.takeD 2 0).length = 2 := List.takeD_length ..
  have hstamp : splice (p.data.takeD 2 0) 0 (toBytes 2 0) = [0, 0] := by
    rw [splice_zero, List.drop_of_length_le (by rw [hlen, length_toBytes])]
    rfl
  simp only [clear, EStateM.run_bind, EStateM.run_modify, resize_run, hclamp, packetlenSize]
  rw [updateSize_ok (by simp only [hlen, datagramSize]; omega) (by simp only [hlen]; omega)
    (by simp only [hlen]; omega)]
  simp only [stamped_eq, workSize_eq, hlen, Nat.sub_self, hstamp]
  rfl

end Packet

end Sws
