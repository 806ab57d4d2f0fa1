import Sws.Foundation.RandomAccess
import Sws.Foundation.Transition
import Sws.Packet.Valid

/-!
# A Packet is a Random-Access File

The payload of a packet, with the read and the write cursor counted from its start, is a
random-access file of bytes: every run of raw reads, raw writes, seeks and queries gives the
answers of the file.  The exception is a write of nothing at the end of the buffer, which refers to
a byte behind the last one.

## Key Results

- `answer_refines`: one operation.
- `runs_refine_file_iff`: whole runs.
-/

namespace Sws.Packet

open Sws.Foundation

/-! ## Commands -/

/-- The operations on raw bytes, on one cursor at a time. -/
inductive Command
  | writeData (bytes : List UInt8) (whole : Bool)
  | readData (size : ℕ) (whole : Bool)
  | seek (cursor : FileCursor) (type : SeekType) (value : Int64)
  | tell (cursor : FileCursor)
  | atEnd
  | empty
  | clear

/-- The cursor a file cursor stands for. -/
def toSeekCursor : FileCursor → SeekCursor
  | .read => .read
  | .write => .write

def toOrigin : SeekType → Origin
  | .fromStart => .start
  | .relative => .current
  | .fromEnd => .finish

/-- What an operation asks of the file. -/
def Command.toFile : Command → FileCommand UInt8
  | .writeData bytes whole => .write bytes whole
  | .readData size whole => .read size whole
  | .seek cursor type value => .seek cursor (toOrigin type) value.toInt
  | .tell cursor => .tell cursor
  | .atEnd => .atEnd
  | .empty => .isEmpty
  | .clear => .clear

/-- The answer of a run that may have thrown; undefined behaviour gives none. -/
def answerOf {α : Type} (answer : α → FileAnswer UInt8) :
    EStateM.Result Fault Packet α → Option (FileAnswer UInt8 × Packet)
  | .ok a p => some (answer a, p)
  | .error (.thrown _) p => some (.refused, p)
  | .error _ _ => none

/-- Carries out an operation. -/
def answer : Command → Packet → Option (FileAnswer UInt8 × Packet)
  | .writeData bytes whole, p => answerOf .written ((Packet.writeData bytes whole).run p)
  | .readData size whole, p => answerOf .cells ((Packet.readData size whole).run p)
  | .seek cursor type value, p =>
    answerOf (fun _ => .done) ((Packet.seek (toSeekCursor cursor) type value).run p)
  | .tell cursor, p => some (.position (p.tell (toSeekCursor cursor)), p)
  | .atEnd, p => some (.flag p.atEnd, p)
  | .empty, p => some (.flag p.empty, p)
  | .clear, p => answerOf (fun _ => .done) (Packet.clear.run p)

/-- The payload a packet can hold without its header update failing. -/
abbrev maxPayload : ℕ := 65533

/-- The commands that never meet the limits of the buffer or of `ptrdiff_t`: a write fits, or
is one of the whole that the capacity test refuses; a relative seek does not overflow. -/
def Admissible : FileCommand UInt8 → File UInt8 → Prop
  | .write bytes whole, f =>
    f.w + bytes.length ≤ maxPayload ∨ (whole = true ∧ f.w + bytes.length > maxPayload + 1)
  | .seek cursor .current offset, f => f.position cursor + offset < 2 ^ 63
  | _, _ => True

/-- The commands that refer to a byte of the buffer, if they refer to one: what is written is not
empty, or the write cursor does not stand at the end. -/
def RefersInside : FileCommand UInt8 → File UInt8 → Prop
  | .write bytes _, f => bytes ≠ [] ∨ f.w < f.payload.length
  | _, _ => True

/-! ## The relation -/

/-- The packet holds the file: a consistent header, the payload, and the cursors behind the
header. -/
structure Holds (p : Packet) (f : File UInt8) : Prop where
  consistent : p.verifySize = true
  size_lt : p.data.length < datagramSize
  payload : p.data.drop 2 = f.payload
  readPos : p.readPos = f.r + 2
  writePos : p.writePos = f.w + 2

namespace Holds

variable {p : Packet} {f : File UInt8}

theorem length (h : Holds p f) : p.data.length = f.payload.length + 2 := by
  have hlen := (p.verifySize_iff.mp h.consistent).1
  rw [← h.payload, List.length_drop]
  omega

theorem valid (h : Holds p f) : p.Valid := by
  have hr := f.r_le
  have hw := f.w_le
  have hlen := h.length
  exact ⟨h.consistent, by rw [h.readPos]; omega, by rw [h.writePos]; omega⟩

theorem fits (h : Holds p f) : f.payload.length ≤ maxPayload := by
  have hlt := h.size_lt
  rw [h.length, datagramSize] at hlt
  simp only [maxPayload]
  omega

end Holds

/-! ## One operation -/

section Step

variable {p : Packet} {f : File UInt8}

/-- A write that fits puts the file's cells into the buffer. -/
theorem holds_written (h : Holds p f) {bytes : List UInt8}
    (hfits : f.w + bytes.length ≤ maxPayload) : Holds (p.written bytes) (f.write bytes) := by
  have hlen := length_written bytes p
  have hfile := h.fits
  have hpos : p.writePos.toNat = f.w + 2 := by rw [h.writePos]; omega
  simp only [maxPayload] at hfits hfile
  refine ⟨written_verifySize .., ?_, ?_, h.readPos, ?_⟩
  · rw [hlen, hpos, h.length, datagramSize]; omega
  · rw [drop_written bytes h.valid.writePos, hpos, h.payload]
    rfl
  · show p.writePos + bytes.length = (f.write bytes).w + 2
    rw [h.writePos, File.write]
    push_cast
    ring

/-- A write of nothing at the end of the file is the one without a byte to refer to. -/
theorem pointsOutside_iff (h : Holds p f) {bytes : List UInt8} {whole : Bool} :
    PointsOutside p bytes.length ↔ ¬RefersInside (.write bytes whole) f := by
  have hpos : p.writePos.toNat = f.w + 2 := by rw [h.writePos]; omega
  have hlen := h.length
  have hlt := h.size_lt
  have hw := f.w_le
  rw [RefersInside, not_or, not_not, ← List.length_eq_zero_iff]
  simp only [PointsOutside, room, datagramSize] at *
  omega

theorem answer_writeData (h : Holds p f) (bytes : List UInt8) (whole : Bool)
    (hadm : Admissible (.write bytes whole) f) (hin : RefersInside (.write bytes whole) f) :
    ∃ p', answer (.writeData bytes whole) p =
        some ((File.step maxPayload (.write bytes whole) f).1, p') ∧
      Holds p' (File.step maxPayload (.write bytes whole) f).2 := by
  have hpos : p.writePos.toNat = f.w + 2 := by rw [h.writePos]; omega
  have hlt := h.size_lt
  rcases hadm with hfits | ⟨hwhole, hlong⟩
  · have hfits' : f.w + 2 + bytes.length < datagramSize := by
      simp only [maxPayload, datagramSize] at *; omega
    -- the packet takes what the file takes, all of it
    have hrefuses : ¬Refuses p bytes.length whole := by
      rw [Refuses, hpos]; omega
    have hroom : p.room bytes.length = bytes.length := by
      rw [room, hpos]; omega
    have hrun := writeData_ok hrefuses hlt h.valid.writePos.1
      (mt (pointsOutside_iff h).mp (not_not_intro hin)) (by rw [hpos, hroom]; exact hfits')
    rw [hroom, List.take_length] at hrun
    refine ⟨p.written bytes, ?_, ?_⟩
    · simp only [answer, hrun, answerOf, File.step, if_pos hfits]
    · simp only [File.step, if_pos hfits]
      exact holds_written h hfits
  · -- the capacity test of the packet refuses what the file has no room for
    have hrefuses : Refuses p bytes.length whole :=
      .inr ⟨hwhole, by rw [hpos]; simp only [maxPayload, datagramSize] at *; omega⟩
    have hnot : ¬f.w + bytes.length ≤ maxPayload := by omega
    refine ⟨p, ?_, ?_⟩
    · simp only [answer, writeData_refused hrefuses, answerOf, File.step, if_neg hnot]
    · simpa only [File.step, if_neg hnot] using h

/-- No file has an answer for a write that refers to a byte behind the buffer. -/
theorem answer_outside (h : Holds p f) {bytes : List UInt8} {whole : Bool}
    (hout : ¬RefersInside (.write bytes whole) f) : answer (.writeData bytes whole) p = none := by
  have houtside := (pointsOutside_iff h).mpr hout
  have hpos := h.writePos
  have hfits := h.fits
  have hw := f.w_le
  simp only [RefersInside, not_or, not_not] at hout
  simp only [maxPayload] at hfits
  -- nothing is neither refused by a packet below the capacity
  have hrefuses : ¬Refuses p bytes.length whole := by
    rintro (hfull | ⟨-, hlong⟩)
    · exact h.size_lt.ne hfull
    · rw [hout.1, List.length_nil, datagramSize] at hlong
      omega
  have hrun := writeData_outside hrefuses (by simp only [datagramSize]; omega) houtside
  simp only [answer, hrun, answerOf]

/-- What the packet has to give is what the file has to give. -/
theorem available_eq (h : Holds p f) (size : ℕ) : p.available size = f.available size := by
  rw [available, File.available, h.length, h.readPos]
  omega

theorem answer_readData (h : Holds p f) (size : ℕ) (whole : Bool) :
    ∃ p', answer (.readData size whole) p =
        some ((File.step maxPayload (.read size whole) f).1, p') ∧
      Holds p' (File.step maxPayload (.read size whole) f).2 := by
  have hread := h.valid.readPos
  have hlt := h.size_lt
  have havailable := available_eq h size
  have hrange : 2 ≤ p.readPos ∧ p.readPos ≤ max p.data.length 2 := by omega
  have hlen : p.data.length < 2 ^ 62 := by simp only [datagramSize] at hlt; omega
  -- both give nothing in the same cases
  by_cases hnone : f.available size = 0 ∨ (whole = true ∧ f.available size < size)
  · refine ⟨p, ?_, ?_⟩
    · have hrun := readData_nothing hrange hlen (by rw [havailable]; exact hnone)
      simp only [answer, hrun, answerOf, File.step, if_pos hnone]
    · simpa only [File.step, if_pos hnone] using h
  · have hrun := readData_ok hrange hlen (by rw [havailable]; exact hnone)
    -- the cells behind the read cursor are the same
    have hdrop : p.data.drop p.readPos.toNat = f.payload.drop f.r := by
      have hpos : p.readPos.toNat = 2 + f.r := by rw [h.readPos]; omega
      rw [hpos, ← List.drop_drop, h.payload]
    rw [hdrop, havailable] at hrun
    refine ⟨{ p with readPos := p.readPos + f.available size }, ?_, ?_⟩
    · simp only [answer, hrun, answerOf, File.step, if_neg hnone]
    · simp only [File.step, if_neg hnone]
      refine ⟨h.consistent, hlt, h.payload, ?_, h.writePos⟩
      show p.readPos + f.available size = (f.r + f.available size : ℕ) + 2
      rw [h.readPos]
      push_cast
      ring

/-- A seek aims at the same place of the payload and of the file. -/
theorem seekTarget_eq (h : Holds p f) (cursor : FileCursor) (type : SeekType) (value : Int)
    {pos : Int} (hpos : pos = f.position cursor + 2) :
    seekTarget p.workSize type pos value = f.target cursor value (toOrigin type) := by
  have hsize : p.workSize = f.payload.length := by rw [workSize_eq, h.length]; omega
  cases type with
  | fromStart => rfl
  | relative => simp only [seekTarget, toOrigin, File.target]; omega
  | fromEnd => simp only [seekTarget, toOrigin, File.target, hsize]

/-- The packet's own cursor. -/
def cursorPos (p : Packet) : FileCursor → Int
  | .read => p.readPos
  | .write => p.writePos

def putCursor (p : Packet) (pos : Int) : FileCursor → Packet
  | .read => { p with readPos := pos }
  | .write => { p with writePos := pos }

@[simp] theorem putCursor_cursorPos (p : Packet) (cursor : FileCursor) :
    p.putCursor (p.cursorPos cursor) cursor = p := by
  cases cursor <;> rfl

theorem seek_of_ok {cursor : FileCursor} {type : SeekType} {value : Int64} {pos : Int}
    (h : (seekImpl p.workSize type value).run (p.cursorPos cursor) = .ok () pos) :
    (seek (toSeekCursor cursor) type value).run p = .ok () (p.putCursor pos cursor) := by
  cases cursor with
  | read => exact seek_read_of_ok h
  | write => exact seek_write_of_ok h

theorem seek_of_error {cursor : FileCursor} {type : SeekType} {value : Int64} {e : Fault}
    {pos : Int} (h : (seekImpl p.workSize type value).run (p.cursorPos cursor) = .error e pos) :
    (seek (toSeekCursor cursor) type value).run p = .error e (p.putCursor pos cursor) := by
  cases cursor with
  | read => exact seek_read_of_error h
  | write => exact seek_write_of_error h

theorem cursorPos_eq (h : Holds p f) (cursor : FileCursor) :
    p.cursorPos cursor = f.position cursor + 2 := by
  cases cursor with
  | read => exact h.readPos
  | write => exact h.writePos

theorem position_le (f : File UInt8) (cursor : FileCursor) :
    f.position cursor ≤ f.payload.length := by
  cases cursor with
  | read => exact f.r_le
  | write => exact f.w_le

theorem holds_place (h : Holds p f) (cursor : FileCursor) {pos : ℕ}
    (hpos : pos ≤ f.payload.length) :
    Holds (p.putCursor (pos + 2) cursor) (f.place cursor pos hpos) := by
  cases cursor with
  | read => exact ⟨h.consistent, h.size_lt, h.payload, rfl, h.writePos⟩
  | write => exact ⟨h.consistent, h.size_lt, h.payload, h.readPos, rfl⟩

theorem answer_seek (h : Holds p f) (cursor : FileCursor) (type : SeekType) (value : Int64)
    (hadm : Admissible (.seek cursor (toOrigin type) value.toInt) f) :
    ∃ p', answer (.seek cursor type value) p =
        some ((File.step maxPayload (.seek cursor (toOrigin type) value.toInt) f).1, p') ∧
      Holds p' (File.step maxPayload (.seek cursor (toOrigin type) value.toInt) f).2 := by
  have hpos := cursorPos_eq h cursor
  have hle := position_le f cursor
  have hfits := h.fits
  have hsize : p.workSize = f.payload.length := by rw [workSize_eq, h.length]; omega
  have htarget := seekTarget_eq h cursor type value.toInt hpos
  simp only [maxPayload] at hfits
  -- both accept the targets inside the payload
  by_cases hinside : 0 ≤ f.target cursor value.toInt (toOrigin type) ∧
      f.target cursor value.toInt (toOrigin type) ≤ f.payload.length
  · have hseek := seekImpl_ok p.workSize type value (p.cursorPos cursor)
      (by omega) (by omega) (by omega) (by omega)
    obtain ⟨pos, hplace⟩ := Int.eq_ofNat_of_zero_le hinside.1
    rw [htarget, hplace] at hseek
    refine ⟨p.putCursor (pos + 2) cursor, ?_, ?_⟩
    · simp only [answer, seek_of_ok hseek, answerOf, File.step, dif_pos hinside]
    · simp only [File.step, dif_pos hinside]
      simp only [hplace, Int.toNat_natCast]
      exact holds_place h cursor (by omega)
  · -- an admissible seek does not overflow on its way to a target outside
    have hoverflow : type = .relative → -2 ^ 63 ≤ p.cursorPos cursor - 2 + value.toInt ∧
        p.cursorPos cursor - 2 + value.toInt < 2 ^ 63 := by
      rintro rfl
      have hmin := value.le_toInt
      simp only [toOrigin, Admissible] at hadm
      omega
    obtain ⟨msg, hseek⟩ := seekImpl_throws p.workSize type value
      (p.cursorPos cursor) (by omega) (by omega) hoverflow
      (by rw [htarget, hsize]; exact hinside)
    refine ⟨p, ?_, ?_⟩
    · simp only [answer, seek_of_error hseek, answerOf, File.step, dif_neg hinside,
        putCursor_cursorPos]
    · simpa only [File.step, dif_neg hinside] using h

/-- **One operation.** Every admissible operation that refers to bytes of the buffer only gets the
answer of the file, and leaves the packet holding what the file then is. -/
theorem answer_refines (c : Command) (h : Holds p f) (hadm : Admissible c.toFile f)
    (hin : RefersInside c.toFile f) :
    ∃ p', answer c p = some ((File.step maxPayload c.toFile f).1, p') ∧
      Holds p' (File.step maxPayload c.toFile f).2 := by
  have hsize : p.workSize = f.payload.length := by rw [workSize_eq, h.length]; omega
  cases c with
  | writeData bytes whole => exact answer_writeData h bytes whole hadm hin
  | readData size whole => exact answer_readData h size whole
  | seek cursor type value => exact answer_seek h cursor type value hadm
  | tell cursor =>
    have hle := position_le f cursor
    have hfits := h.fits
    have htell : p.tell (toSeekCursor cursor) = toPtrdiff (p.cursorPos cursor - 2) := by
      cases cursor <;> rfl
    -- `tell` counts from the end of the header, and does not wrap
    have hpos : p.cursorPos cursor - 2 = f.position cursor := by
      rw [cursorPos_eq h]; omega
    rw [hpos, toPtrdiff_of_mem (by omega) (by simp only [maxPayload] at hfits; omega)] at htell
    exact ⟨p, by simp only [answer, htell, Command.toFile, File.step], h⟩
  | atEnd =>
    have hfits := h.fits
    have hle := f.r_le
    have hend : p.atEnd = (f.r == f.payload.length) := by
      rw [atEnd, realSize, h.length, h.readPos,
        toSize_of_nonneg (by omega) (by simp only [maxPayload] at hfits; omega)]
      rw [Bool.eq_iff_iff, beq_iff_eq, beq_iff_eq]
      omega
    exact ⟨p, by simp only [answer, hend, Command.toFile, File.step], h⟩
  | empty =>
    exact ⟨p, by simp only [answer, Packet.empty, hsize, Command.toFile, File.step], h⟩
  | clear =>
    refine ⟨p.cleared, by simp only [answer, clear_run, answerOf, Command.toFile, File.step], ?_⟩
    exact ⟨(cleared_valid p).consistent, by simp [cleared, datagramSize], rfl, rfl, rfl⟩

end Step

/-! ## Whole runs -/

/-- The file a valid packet holds. -/
def toFile (p : Packet) (h : p.Valid) : File UInt8 where
  payload := p.data.drop 2
  r := p.readPos.toNat - 2
  w := p.writePos.toNat - 2
  r_le := by
    have := h.readPos
    rw [List.length_drop]; omega
  w_le := by
    have := h.writePos
    rw [List.length_drop]; omega

theorem holds_toFile {p : Packet} (h : p.Valid) (hlt : p.data.length < datagramSize) :
    Holds p (p.toFile h) := by
  have hread := h.readPos
  have hwrite := h.writePos
  refine ⟨h.consistent, hlt, rfl, ?_, ?_⟩
  · show p.readPos = (p.readPos.toNat - 2 : ℕ) + 2
    omega
  · show p.writePos = (p.writePos.toNat - 2 : ℕ) + 2
    omega

/-- The operation that refers to a byte behind the buffer has no answer. -/
theorem answer_stuck {p : Packet} {f : File UInt8} (c : Command) (h : Holds p f)
    (hout : ¬RefersInside c.toFile f) : answer c p = none := by
  cases c with
  | writeData bytes whole => exact answer_outside h hout
  | readData | seek | tell | atEnd | empty | clear => exact absurd trivial hout

/-- The operations get, one by one, the answers of the file, and the packet ends up holding the file
the run leads to. -/
def RefinesFile (commands : List Command) (p : Packet) (f : File UInt8) : Prop :=
  ∃ p', tryRuns answer commands p =
      some ((runs (File.step maxPayload) (commands.map Command.toFile) f).1, p') ∧
    Holds p' (runs (File.step maxPayload) (commands.map Command.toFile) f).2

/-- **Refinement.** From a valid packet below the capacity, a run of admissible operations is a run
of the file the packet holds exactly if no write of it refers to a byte behind the buffer. -/
theorem runs_refine_file_iff {p : Packet} (hp : p.Valid) (hlt : p.data.length < datagramSize)
    (commands : List Command)
    (hadm : Admits (File.step maxPayload) Admissible (commands.map Command.toFile)
      (p.toFile hp)) :
    RefinesFile commands p (p.toFile hp) ↔
      Admits (File.step maxPayload) RefersInside (commands.map Command.toFile) (p.toFile hp) :=
  tryRuns_iff_of_simulation (fun c _ _ hR hc hin => answer_refines c hR hc hin)
    (fun c _ _ hR _ hout => answer_stuck c hR hout) commands (holds_toFile hp hlt) hadm

/-- Writing three bytes into a new packet, overwriting the middle one and reading two. -/
theorem runs_refine_file_iff_fresh :
    ∃ p', tryRuns answer [.writeData [1, 2, 3] true, .seek .write .relative (-2),
        .writeData [9] false, .readData 2 true, .seek .read .fromEnd 4] fresh =
        some ([.written 3, .done, .written 1, .cells [1, 9], .refused], p') ∧
      p'.data.drop 2 = [1, 9, 3] := by
  have hiff := runs_refine_file_iff fresh_valid (by decide)
    [.writeData [1, 2, 3] true, .seek .write .relative (-2), .writeData [9] false,
      .readData 2 true, .seek .read .fromEnd 4]
    ⟨.inl (by decide), by show ((3 : ℕ) : Int) + (-2) < 2 ^ 63; decide, .inl (by decide),
      trivial, trivial, trivial⟩
  obtain ⟨p', hrun, hholds⟩ := hiff.mpr
    ⟨.inl (by decide), trivial, .inl (by decide), trivial, trivial, trivial⟩
  exact ⟨p', hrun, hholds.payload⟩

/-- Writing nothing into a new packet is admissible, and undefined. -/
theorem not_refinesFile_nothing :
    Admits (File.step maxPayload) Admissible [.write [] true] (fresh.toFile fresh_valid) ∧
      (writeData [] true).run fresh = .error (.undefined .outOfBounds) fresh ∧
      ¬RefinesFile [.writeData [] true] fresh (fresh.toFile fresh_valid) := by
  refine ⟨⟨.inl (by decide), trivial⟩, rfl, ?_⟩
  rintro ⟨p', hrun, -⟩
  cases hrun

end Sws.Packet
