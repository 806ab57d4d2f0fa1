import Sws.Packet.FileRefinement

/-!
# Seeking in Unbounded Integers

A seek of one cursor computes with machine words what its target is in unbounded integers, and
moves the cursor or throws.  The exception is a relative seek so far forward that the sum
overflows.  A seek of both cursors is one seek after the other, and what the first has moved
stays moved when the second throws.

## Key Results

- `seekImpl_cases`: the three ends of a seek of one cursor.
- `agrees_one_iff`, `agrees_both_iff`: one cursor, and both.
- `agrees_iff`: which seeks agree with unbounded integers.
-/

namespace Sws.Packet

open Sws.Foundation

/-! ## Targets -/

/-- The cursors that a seek moves. -/
def selected : SeekCursor → List FileCursor
  | .read => [.read]
  | .write => [.write]
  | .both => [.read, .write]

/-- Where the seek wants to put a cursor of the packet. -/
def target (p : Packet) (type : SeekType) (value : Int) (c : FileCursor) : Int :=
  seekTarget p.workSize type (p.cursorPos c) value

/-- The seek can put the cursor there.  Only a relative seek takes a negative value. -/
def Admits (p : Packet) (type : SeekType) (value : Int) (c : FileCursor) : Prop :=
  (type ≠ .relative → 0 ≤ value) ∧ 0 ≤ p.target type value c ∧
    p.target type value c ≤ p.workSize

/-- The cursor's position and the value have a sum above the largest `ptrdiff_t`. -/
def Overflows (p : Packet) (type : SeekType) (value : Int) (c : FileCursor) : Prop :=
  type = .relative ∧ 2 ^ 63 ≤ p.target type value c

/-- The selected cursors are at their targets, and the rest of the packet is what it was. -/
structure SeeksTo (p q : Packet) (cursor : SeekCursor) (type : SeekType) (value : Int) : Prop where
  tell_eq : ∀ c ∈ selected cursor, q.tell (toSeekCursor c) = p.target type value c
  cursorPos_eq : ∀ c, c ∉ selected cursor → q.cursorPos c = p.cursorPos c
  frame : { q with readPos := p.readPos, writePos := p.writePos } = p

/-- The seek does what it would do in unbounded integers: it puts all selected cursors at their
targets if it can, and throws and leaves the packet as it is if not. -/
structure Agrees (p : Packet) (cursor : SeekCursor) (type : SeekType) (value : Int64) : Prop where
  succeeds : (∀ c ∈ selected cursor, p.Admits type value.toInt c) →
    ∃ q, (seek cursor type value).run p = .ok () q ∧ SeeksTo p q cursor type value.toInt
  throws : ¬(∀ c ∈ selected cursor, p.Admits type value.toInt c) →
    ∃ e, (seek cursor type value).run p = .error (.thrown e) p

section Seek

variable {p : Packet} {type : SeekType} {value : Int64}

/-- Both cursors stand in the payload or at its end. -/
def CursorsInside (p : Packet) : Prop := ∀ c, 2 ≤ p.cursorPos c ∧ p.cursorPos c ≤ p.data.length

/-- The value of a seek from either end has the right sign if the target is inside. -/
theorem admits_iff (p : Packet) (type : SeekType) (value : Int) (c : FileCursor) :
    p.Admits type value c ↔
      0 ≤ p.target type value c ∧ p.target type value c ≤ p.workSize := by
  refine and_iff_right_of_imp fun ⟨h₀, h⟩ => ?_
  cases type with
  | fromStart => exact fun _ => h₀
  | relative => exact fun hne => absurd rfl hne
  | fromEnd =>
    intro _
    simp only [target, seekTarget] at h
    omega

/-- The payload is far smaller than the largest `ptrdiff_t`. -/
theorem not_overflows_of_admits (hlen : p.data.length < 2 ^ 62) {c : FileCursor}
    (h : p.Admits type value.toInt c) : ¬p.Overflows type value.toInt c := by
  rintro ⟨-, hlarge⟩
  have hle := h.2.2
  rw [workSize_eq] at hle
  omega

/-- A seek of one cursor puts it at its target, throws, or overflows. -/
theorem seekImpl_cases (hp : p.CursorsInside) (hlen : p.data.length < 2 ^ 62) (c : FileCursor) :
    (p.Admits type value.toInt c ∧
      (seek (toSeekCursor c) type value).run p =
        .ok () (p.putCursor (p.target type value.toInt c + 2) c)) ∨
    (¬p.Admits type value.toInt c ∧ ¬p.Overflows type value.toInt c ∧
      ∃ msg, (seek (toSeekCursor c) type value).run p = .error (.thrown (.logicError msg)) p) ∨
    (¬p.Admits type value.toInt c ∧ p.Overflows type value.toInt c ∧
      (seek (toSeekCursor c) type value).run p = .error (.undefined .signedOverflow) p) := by
  have hpos := hp c
  have hsize : p.workSize < 2 ^ 62 := by rw [workSize_eq]; omega
  have hrange : 0 ≤ p.cursorPos c ∧ p.cursorPos c < 2 ^ 62 := by omega
  by_cases hadmits : p.Admits type value.toInt c
  · obtain ⟨h₀, h⟩ := (admits_iff ..).mp hadmits
    have hok := seekImpl_ok p.workSize type value (p.cursorPos c) hsize hrange h₀ h
    exact .inl ⟨hadmits, seek_of_ok hok⟩
  by_cases hover : p.Overflows type value.toInt c
  · obtain ⟨hrel, hlarge⟩ := hover
    subst hrel
    have hundefined := seekImpl_overflow p.workSize value (p.cursorPos c) hrange
      (fun h => not_lt.mpr hlarge h.2)
    refine .inr (.inr ⟨hadmits, ⟨rfl, hlarge⟩, ?_⟩)
    rw [seek_of_error hundefined, putCursor_cursorPos]
  · -- a position inside the payload cannot be moved below the smallest `ptrdiff_t`
    have hsum : type = .relative → -2 ^ 63 ≤ p.cursorPos c - 2 + value.toInt ∧
        p.cursorPos c - 2 + value.toInt < 2 ^ 63 := by
      intro hrel
      have hmin := value.le_toInt
      refine ⟨by omega, not_le.mp fun hlarge => hover ⟨hrel, ?_⟩⟩
      rw [target, hrel]
      exact hlarge
    obtain ⟨msg, hthrows⟩ := seekImpl_throws p.workSize type value (p.cursorPos c) hsize hrange
      hsum (mt (admits_iff ..).mpr hadmits)
    refine .inr (.inl ⟨hadmits, hover, msg, ?_⟩)
    rw [seek_of_error hthrows, putCursor_cursorPos]

/-! ## One cursor -/

@[simp] theorem selected_toSeekCursor (c : FileCursor) : selected (toSeekCursor c) = [c] := by
  cases c <;> rfl

/-- A cursor put at its target tells it. -/
theorem tell_putCursor (p : Packet) {pos : Int} (h : 0 ≤ pos ∧ pos < 2 ^ 62) (c : FileCursor) :
    (p.putCursor (pos + 2) c).tell (toSeekCursor c) = pos := by
  have htell : (p.putCursor (pos + 2) c).tell (toSeekCursor c) = toPtrdiff (pos + 2 - 2) := by
    cases c <;> rfl
  rw [htell, toPtrdiff_of_mem (by omega) (by omega)]
  omega

theorem cursorPos_putCursor_of_ne (p : Packet) (pos : Int) {c c' : FileCursor} (h : c' ≠ c) :
    (p.putCursor pos c).cursorPos c' = p.cursorPos c' := by
  cases c <;> cases c' <;> first | rfl | exact absurd rfl h

theorem seeksTo_putCursor (hlen : p.data.length < 2 ^ 62) {c : FileCursor}
    (h : p.Admits type value.toInt c) :
    SeeksTo p (p.putCursor (p.target type value.toInt c + 2) c) (toSeekCursor c) type
      value.toInt where
  tell_eq c' hc' := by
    rw [selected_toSeekCursor, List.mem_singleton] at hc'
    subst hc'
    obtain ⟨-, h₀, hle⟩ := h
    rw [workSize_eq] at hle
    exact tell_putCursor p ⟨h₀, by omega⟩ c'
  cursorPos_eq c' hc' := by
    rw [selected_toSeekCursor, List.mem_singleton] at hc'
    exact cursorPos_putCursor_of_ne p _ hc'
  frame := by cases c <;> rfl

/-- One cursor is moved or left, unless the sum overflows. -/
theorem agrees_one_iff (hp : p.CursorsInside) (hlen : p.data.length < 2 ^ 62) (c : FileCursor) :
    Agrees p (toSeekCursor c) type value ↔ ¬p.Overflows type value.toInt c := by
  have hall : (∀ c' ∈ selected (toSeekCursor c), p.Admits type value.toInt c') ↔
      p.Admits type value.toInt c := by
    rw [selected_toSeekCursor, List.forall_mem_singleton]
  rcases seekImpl_cases hp hlen c with
    ⟨hadmits, hrun⟩ | ⟨hadmits, hover, msg, hrun⟩ | ⟨hadmits, hover, hrun⟩
  · refine iff_of_true ⟨fun _ => ⟨_, hrun, seeksTo_putCursor hlen hadmits⟩, ?_⟩
      (not_overflows_of_admits hlen hadmits)
    exact fun hnot => absurd (hall.mpr hadmits) hnot
  · exact iff_of_true ⟨fun h => absurd (hall.mp h) hadmits, fun _ => ⟨_, hrun⟩⟩ hover
  · refine iff_of_false (fun hagrees => ?_) (not_not_intro hover)
    obtain ⟨e, hthrows⟩ := hagrees.throws (mt hall.mp hadmits)
    rw [hrun] at hthrows
    cases hthrows

/-! ## Both cursors -/

theorem seek_both_run (p : Packet) (type : SeekType) (value : Int64) :
    (seek .both type value).run p =
      match (seek .read type value).run p with
      | .ok () q => (seek .write type value).run q
      | .error e q => .error e q := by
  have hboth : (seek .both type value).run p =
      (onReadPos (seekImpl p.workSize type value) >>= fun _ =>
        onWritePos (seekImpl p.workSize type value)).run p := rfl
  have hread : (seek .read type value).run p =
      (onReadPos (seekImpl p.workSize type value)).run p := rfl
  rw [hboth, hread, EStateM.run_bind]
  -- the size of the payload does not depend on the read cursor
  cases hrun : (onReadPos (seekImpl p.workSize type value)).run p with
  | error e q => rfl
  | ok _ q =>
    have hsize : q.workSize = p.workSize := by
      cases hseek : (seekImpl p.workSize type value).run p.readPos with
      | ok a pos =>
        rw [onReadPos, zoom_run_of_ok hseek] at hrun
        cases hrun
        rfl
      | error e pos =>
        rw [onReadPos, zoom_run_of_error hseek] at hrun
        cases hrun
    show _ = (onWritePos (seekImpl q.workSize type value)).run q
    rw [hsize]

theorem cursorsInside_putCursor (hp : p.CursorsInside) {c : FileCursor}
    (h : p.Admits type value.toInt c) :
    (p.putCursor (p.target type value.toInt c + 2) c).CursorsInside := by
  obtain ⟨-, h₀, hle⟩ := h
  rw [workSize_eq] at hle
  intro c'
  have hc := hp c
  have hc' := hp c'
  cases c <;> cases c' <;> simp only [putCursor, cursorPos] at * <;> omega

/-- Only a relative seek can move one cursor and not the other, and then it does move the
first. -/
theorem readPos_moves (hp : p.CursorsInside) (hread : p.Admits type value.toInt .read)
    (hwrite : ¬p.Admits type value.toInt .write) :
    p.target type value.toInt .read + 2 ≠ p.readPos := by
  intro hstays
  refine hwrite ((admits_iff ..).mpr ?_)
  obtain ⟨-, h₀, hle⟩ := hread
  have hpos := hp .write
  have hsize := p.workSize_eq
  cases type with
  | fromStart => exact ⟨h₀, hle⟩
  | relative =>
    -- a value of 0 takes every cursor to where it is
    simp only [target, seekTarget, cursorPos] at *
    omega
  | fromEnd => exact ⟨h₀, hle⟩

/-- Both cursors at their targets. -/
theorem seeksTo_both (hlen : p.data.length < 2 ^ 62) (hread : p.Admits type value.toInt .read)
    (hwrite : p.Admits type value.toInt .write) :
    SeeksTo p ((p.putCursor (p.target type value.toInt .read + 2) .read).putCursor
      (p.target type value.toInt .write + 2) .write) .both type value.toInt where
  tell_eq c _ := by
    have hrange : ∀ c, p.Admits type value.toInt c →
        0 ≤ p.target type value.toInt c ∧ p.target type value.toInt c < 2 ^ 62 := by
      intro c hc
      obtain ⟨-, h₀, hle⟩ := hc
      rw [workSize_eq] at hle
      omega
    cases c with
    | read => exact tell_putCursor p (hrange _ hread) .read
    | write => exact tell_putCursor _ (hrange _ hwrite) .write
  cursorPos_eq c hc := absurd (by cases c <;> simp [selected]) hc
  frame := rfl

/-- Both cursors are moved or left, unless the first sum overflows, or the read cursor can be
moved and the write cursor cannot. -/
theorem agrees_both_iff (hp : p.CursorsInside) (hlen : p.data.length < 2 ^ 62) :
    Agrees p .both type value ↔
      ¬(p.Overflows type value.toInt .read ∨
        (p.Admits type value.toInt .read ∧ ¬p.Admits type value.toInt .write)) := by
  have hall : (∀ c ∈ selected .both, p.Admits type value.toInt c) ↔
      p.Admits type value.toInt .read ∧ p.Admits type value.toInt .write := by
    simp [selected]
  have hboth := seek_both_run p type value
  rcases seekImpl_cases hp hlen .read with
    ⟨hread, hrun⟩ | ⟨hread, hover, msg, hrun⟩ | ⟨hread, hover, hrun⟩
  · have hnotOver := not_overflows_of_admits hlen hread
    have hmoved := cursorsInside_putCursor hp hread
    rw [show (seek .read type value).run p = _ from hrun] at hboth
    -- the write cursor's target is what it was before the read cursor moved
    rcases seekImpl_cases hmoved hlen .write with
      ⟨hwrite, hrun'⟩ | ⟨hwrite, -, msg, hrun'⟩ | ⟨hwrite, -, hrun'⟩
    · refine iff_of_true ⟨fun _ => ⟨_, hboth.trans hrun', seeksTo_both hlen hread hwrite⟩, ?_⟩ ?_
      · exact fun hnot => absurd (hall.mpr ⟨hread, hwrite⟩) hnot
      · exact not_or.mpr ⟨hnotOver, fun h => h.2 hwrite⟩
    · refine iff_of_false (fun hagrees => ?_) (not_not_intro (.inr ⟨hread, hwrite⟩))
      obtain ⟨e, hthrows⟩ := hagrees.throws fun h => hwrite (hall.mp h).2
      rw [hboth.trans hrun'] at hthrows
      injection hthrows with _ hleft
      exact readPos_moves hp hread hwrite (congrArg Packet.readPos hleft)
    · refine iff_of_false (fun hagrees => ?_) (not_not_intro (.inr ⟨hread, hwrite⟩))
      obtain ⟨e, hthrows⟩ := hagrees.throws fun h => hwrite (hall.mp h).2
      rw [hboth.trans hrun'] at hthrows
      cases hthrows
  · rw [show (seek .read type value).run p = _ from hrun] at hboth
    refine iff_of_true ⟨fun h => absurd (hall.mp h).1 hread, fun _ => ⟨_, hboth⟩⟩ ?_
    exact fun h => h.elim hover fun h => hread h.1
  · rw [show (seek .read type value).run p = _ from hrun] at hboth
    refine iff_of_false (fun hagrees => ?_) (not_not_intro (.inl hover))
    obtain ⟨e, hthrows⟩ := hagrees.throws fun h => hread (hall.mp h).1
    rw [hboth] at hthrows
    cases hthrows

/-- Where a seek does something else: the sum of a selected cursor's position and the value is
above the largest `ptrdiff_t`, or the read cursor is moved before the write cursor turns out to
have a target outside. -/
def Departs (p : Packet) (cursor : SeekCursor) (type : SeekType) (value : Int) : Prop :=
  match cursor with
  | .read => p.Overflows type value .read
  | .write => p.Overflows type value .write
  | .both => p.Overflows type value .read ∨
      (p.Admits type value .read ∧ ¬p.Admits type value .write)

/-- **Seeking.** Unless it departs there, a seek does what it would do in unbounded integers. -/
theorem agrees_iff (hp : p.CursorsInside) (hlen : p.data.length < 2 ^ 62) (cursor : SeekCursor) :
    Agrees p cursor type value ↔ ¬p.Departs cursor type value.toInt := by
  cases cursor with
  | read => exact agrees_one_iff hp hlen .read
  | write => exact agrees_one_iff hp hlen .write
  | both => exact agrees_both_iff hp hlen

end Seek

theorem cursorsInside_of_valid {p : Packet} (hp : p.Valid) : p.CursorsInside := by
  intro c
  cases c with
  | read => exact hp.readPos
  | write => exact hp.writePos

/-- Both cursors of a packet with four bytes, moved to the end. -/
theorem agrees_iff_fromEnd :
    Agrees (fresh.written [1, 2, 3, 4]) .both .fromEnd 0 ↔
      ¬(fresh.written [1, 2, 3, 4]).Departs .both .fromEnd (0 : Int64).toInt :=
  agrees_iff (cursorsInside_of_valid (written_valid _ fresh_valid))
    (by rw [length_written]; decide) .both

/-- The read cursor can go two bytes forward, and the write cursor cannot. -/
theorem not_agrees_both :
    (fresh.written [1, 2, 3, 4]).Valid ∧
      (∃ e q, (seek .both .relative 2).run (fresh.written [1, 2, 3, 4]) = .error (.thrown e) q ∧
        q.readPos = (fresh.written [1, 2, 3, 4]).readPos + 2) ∧
      ¬Agrees (fresh.written [1, 2, 3, 4]) .both .relative 2 := by
  have hvalid := written_valid [1, 2, 3, 4] fresh_valid
  refine ⟨hvalid, ⟨_, _, rfl, rfl⟩, fun hagrees => ?_⟩
  have hall : ¬∀ c ∈ selected .both,
      (fresh.written [1, 2, 3, 4]).Admits .relative (2 : Int64).toInt c := by
    intro h
    have hwrite := (h .write (by simp [selected])).2.2
    revert hwrite
    decide
  obtain ⟨e, hthrows⟩ := hagrees.throws hall
  have hleft : (seek .both .relative 2).run (fresh.written [1, 2, 3, 4]) = .error _ _ := rfl
  rw [hleft] at hthrows
  cases hthrows

end Sws.Packet
